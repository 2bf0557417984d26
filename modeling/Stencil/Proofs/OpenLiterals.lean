import Stencil.Proofs.Scanning

/-! # Open literals

Two scanners decide which literals are open at the end of a text: the check `leavesOpen`, which
keeps a stack of delimiters, and the scan into lexemes, which asks the check about one item at a
time. With the standard delimiters they agree: as long as the lexemes found so far can be read,
the stack of the check is that of the literal being read, `feed_openings?`.
-/

namespace Stencil

namespace Delimiters

variable (delimiters : Delimiters)

/-- The openings after one more character, if it does not close what is not open. -/
def advance? (openings : Openings) (c : Char) : Option Openings :=
  (delimiters.advance "" openings c).toOption

/-- The openings after a text, if every closing character in it is matched. -/
def openings? (openings : Openings) (text : List Char) : Option Openings :=
  text.foldlM delimiters.advance? openings

/-- The text only stands in the failure. -/
theorem toOption_advance (text : String) (openings : Openings) (c : Char) :
    (delimiters.advance text openings c).toOption = delimiters.advance? openings c := by
  rcases openings with ⟨stack, _ | _⟩
  · simp only [advance?, advance]
    repeat' split
    all_goals rfl
  · rfl

private theorem toOption_foldlM_advance (text : String) (openings : Openings) (rest : List Char) :
    (rest.foldlM (delimiters.advance text) openings).toOption =
      delimiters.openings? openings rest := by
  induction rest generalizing openings with
  | nil => rfl
  | cons c rest ih =>
    rw [openings?, List.foldlM_cons, List.foldlM_cons, ← toOption_advance delimiters text]
    cases delimiters.advance text openings c with
    | ok next => exact ih next
    | error fault => rfl

theorem leavesOpen_eq_ok_iff {text : String} {answer : Bool} :
    delimiters.leavesOpen text = .ok answer ↔
      ∃ openings, delimiters.openings? {} text.toList = some openings ∧
        answer = !openings.stack.isEmpty := by
  rw [← toOption_foldlM_advance delimiters text, leavesOpen]
  cases text.toList.foldlM (delimiters.advance text) {} with
  | ok openings => simp [Except.toOption, eq_comm, pure, Except.pure]
  | error fault =>
    constructor
    · intro impossible
      cases impossible
    · simp [Except.toOption]

theorem openings?_append (openings : Openings) (front rest : List Char) :
    delimiters.openings? openings (front ++ rest) =
      (delimiters.openings? openings front).bind fun next => delimiters.openings? next rest :=
  List.foldlM_append

section Standard

private theorem standard_entries : standard.table.entries =
    [('"', ⟨'"', '"', some '\\', .quote⟩), ('\'', ⟨'\'', '\'', some '\\', .quote⟩),
      ('(', ⟨'(', ')', none, .group⟩), ('[', ⟨'[', ']', none, .list⟩)] := by
  decide

@[simp] theorem isEscape_standard {c : Char} : standard.isEscape c = true ↔ c = '\\' := by
  rw [isEscape, standard_entries]
  simp only [List.any_cons, List.any_nil, reduceCtorEq, beq_iff_eq, Bool.or_eq_true,
    Option.some.injEq, Bool.false_eq_true, or_false, or_self]
  exact eq_comm

@[simp] theorem closesNesting_standard {c : Char} :
    standard.closesNesting c = true ↔ c = ')' ∨ c = ']' := by
  have known : standard.closesNesting c = (')' == c || ']' == c) := by
    rw [closesNesting, standard_entries]
    simp [Delimiter.isSymmetric]
  rw [known, Bool.or_eq_true, beq_iff_eq, beq_iff_eq]
  exact or_congr eq_comm eq_comm

theorem find?_standard (c : Char) : standard.find? c =
    if c = '"' then some ⟨'"', '"', some '\\', .quote⟩
    else if c = '\'' then some ⟨'\'', '\'', some '\\', .quote⟩
    else if c = '(' then some ⟨'(', ')', none, .group⟩
    else if c = '[' then some ⟨'[', ']', none, .list⟩
    else none := by
  rw [find?, Table.find?, standard_entries]
  rfl

/-- A standard delimiter is a quote, or it opens a list or a group. -/
theorem cases_of_find?_standard {c : Char} {delimiter : Delimiter}
    (found : standard.find? c = some delimiter) :
    delimiter = ⟨'"', '"', some '\\', .quote⟩ ∨ delimiter = ⟨'\'', '\'', some '\\', .quote⟩ ∨
      delimiter = ⟨'(', ')', none, .group⟩ ∨ delimiter = ⟨'[', ']', none, .list⟩ := by
  rw [find?_standard] at found
  repeat' split at found
  all_goals cases found
  all_goals simp

end Standard

/-- The openings of an inner text as those of the text around it. -/
def Openings.inside (delimiter : Delimiter) (openings : Openings) : Openings :=
  ⟨openings.stack ++ [delimiter], openings.escaped⟩

/-- Inside a nesting delimiter a character does the same as in a text of its own, unless it closes
that delimiter. -/
theorem advance?_inside {delimiter : Delimiter} (nests : delimiter.isSymmetric = false)
    {openings : Openings} {c : Char}
    (kept : delimiter.close = c → openings.stack ≠ []) :
    delimiters.advance? (openings.inside delimiter) c =
      (delimiters.advance? openings c).map (Openings.inside delimiter) := by
  obtain ⟨stack, escaped⟩ := openings
  cases escaped with
  | true => rfl
  | false =>
    cases stack with
    | cons top outer =>
      simp only [Openings.inside, List.cons_append, advance?, advance]
      repeat' split
      all_goals rfl
    | nil =>
      have other : ¬ delimiter.close = c := fun closing => kept closing rfl
      simp only [Openings.inside, List.nil_append, advance?, advance, nests, other, if_false,
        Bool.false_eq_true]
      repeat' split
      all_goals rfl

end Delimiters

namespace Lexeme

open Delimiters

/-- A literal that is read by the rules of the delimiter that opened it. -/
def Enclosed.IsStandard : Enclosed → Prop
  | .quote delimiter _ _ => delimiter.enclosure = .quote ∧ ∃ c, standard.find? c = some delimiter
  | .list delimiter _ _ => delimiter.enclosure = .list ∧ ∃ c, standard.find? c = some delimiter
  | .group delimiter _ => delimiter.enclosure = .group ∧ ∃ c, standard.find? c = some delimiter

/-- The openings at the place that the scan has reached inside a literal. -/
def Enclosed.openings? : Enclosed → Option Openings
  | .quote delimiter _ escaped => some ⟨[delimiter], escaped⟩
  | .list delimiter _ item => (standard.openings? {} item.toList).map (Openings.inside delimiter)
  | .group delimiter body => (standard.openings? {} body.toList).map (Openings.inside delimiter)

/-- A piece whose literal, if one is open, is read by the rules of its delimiter. -/
def Pending.IsStandard : Pending → Prop
  | .enclosed literal _ => literal.IsStandard
  | _ => True

/-- The openings at the place that the scan has reached. -/
def Pending.openings? : Pending → Option Openings
  | .enclosed literal _ => literal.openings?
  | _ => some {}

/-- A lexeme whose inner texts leave nothing open, not even an escape. -/
def IsBalanced (lexeme : Lexeme) : Prop :=
  ∀ inner ∈ lexeme.inners, standard.openings? {} inner.toList = some {}

private theorem openings?_of_leavesOpen {text : String} {answer : Bool}
    (checked : standard.leavesOpen text = .ok answer) :
    ∃ openings, standard.openings? {} text.toList = some openings ∧
      (answer = true ↔ openings.stack ≠ []) := by
  obtain ⟨openings, reached, same⟩ := (leavesOpen_eq_ok_iff standard).mp checked
  exact ⟨openings, reached, by simp [same]⟩

/-- A closing character of a nesting delimiter ends it, and a comma does nothing in it. -/
theorem advance?_standard {delimiter : Delimiter} {c : Char}
    (found : standard.find? c = some delimiter) (nests : delimiter.enclosure ≠ .quote) :
    delimiter.isSymmetric = false ∧
      standard.advance? ⟨[delimiter], false⟩ delimiter.close = some {} ∧
      standard.advance? ⟨[delimiter], false⟩ ',' = some ⟨[delimiter], false⟩ := by
  rcases cases_of_find?_standard found with rfl | rfl | rfl | rfl
  · exact absurd rfl nests
  · exact absurd rfl nests
  · decide
  · decide

/-- The characters that have a meaning for the standard delimiters. -/
def marks : List Char :=
  ['"', '\'', '(', ')', '[', ']', '\\']

theorem isPunctuation_of_mem_marks : ∀ c ∈ marks, isPunctuation c = true := by
  have checked : marks.all isPunctuation = true := by decide
  exact List.all_eq_true.mp checked

/-- Characters that neither open, close nor escape leave nothing open. -/
theorem advance?_of_not_mem_marks {c : Char} (plain : c ∉ marks) :
    standard.advance? {} c = some {} := by
  simp only [marks, List.mem_cons, List.not_mem_nil, or_false, not_or] at plain
  obtain ⟨double, single, round, roundClose, square, squareClose, escape⟩ := plain
  have notEscape : ¬ standard.isEscape c = true := by simpa [isEscape_standard] using escape
  have notClosing : ¬ standard.closesNesting c = true := by
    simp [closesNesting_standard, roundClose, squareClose]
  have notOpening : standard.find? c = none := by
    rw [find?_standard, if_neg double, if_neg single, if_neg round, if_neg square]
  simp only [Delimiters.advance?, advance, if_neg notEscape, if_neg notClosing, notOpening,
    Except.toOption]

private theorem openings?_of_isBlankText {text : String}
    (blank : Enclosed.isBlankText text = true) : standard.openings? {} text.toList = some {} := by
  rw [Enclosed.isBlankText, Text.isAllBlank] at blank
  generalize text.toList = chars at blank ⊢
  induction chars with
  | nil => rfl
  | cons c rest ih =>
    rw [List.all_cons, Bool.and_eq_true] at blank
    have plain : c ∉ marks := by
      intro special
      rw [not_isBlank_of_isPunctuation (isPunctuation_of_mem_marks c special)] at blank
      exact Bool.false_ne_true blank.1
    rw [Delimiters.openings?, List.foldlM_cons, advance?_of_not_mem_marks plain]
    exact ih blank.2

/-- What a literal has become stands for the given openings. -/
def Progress.Reaches (openings : Option Openings) : Progress → Prop
  | .more longer => longer.IsStandard ∧ openings = longer.openings?
  | .closed lexeme => lexeme.IsBalanced → openings = some {}

private theorem pushQuoted_reaches {delimiter : Delimiter} (text : String) (escaped : Bool)
    (c : Char) (isStandard : (Enclosed.quote delimiter text escaped).IsStandard) :
    (Enclosed.pushQuoted delimiter text escaped c).Reaches
      (standard.advance? ⟨[delimiter], escaped⟩ c) := by
  obtain ⟨quote, opening, found⟩ := isStandard
  have symmetric : delimiter.isSymmetric = true := by
    rcases cases_of_find?_standard found with rfl | rfl | rfl | rfl
    · rfl
    · rfl
    · cases quote
    · cases quote
  have same (longer : String) (after : Bool) :
      (Enclosed.quote delimiter longer after).IsStandard := ⟨quote, opening, found⟩
  cases escaped with
  | true =>
    rw [Enclosed.pushQuoted, if_pos rfl]
    split
    · exact ⟨same _ _, rfl⟩
    · exact ⟨same _ _, rfl⟩
  | false =>
    simp only [Enclosed.pushQuoted, Bool.false_eq_true, if_false, Delimiters.advance?, advance,
      symmetric, if_true]
    by_cases escape : delimiter.escape = some c
    · simp only [if_pos escape]
      exact ⟨same _ _, rfl⟩
    · simp only [if_neg escape]
      by_cases closing : delimiter.close = c
      · simp only [if_pos closing]
        exact fun _ => rfl
      · simp only [if_neg closing]
        exact ⟨same _ _, rfl⟩

/-- A character that belongs to an inner text moves the openings of that text. -/
theorem openings?_push_inside {delimiter : Delimiter} (nests : delimiter.isSymmetric = false)
    {text : String} {c : Char}
    (kept : delimiter.close = c → standard.leavesOpen text = .ok true) :
    ((standard.openings? {} text.toList).map (Openings.inside delimiter)).bind
        (standard.advance? · c) =
      (standard.openings? {} (text.push c).toList).map (Openings.inside delimiter) := by
  rw [String.toList_push, openings?_append]
  rcases reached : standard.openings? {} text.toList with _ | openings
  · rfl
  · have inside : standard.advance? (openings.inside delimiter) c =
        (standard.advance? openings c).map (Openings.inside delimiter) := by
      apply advance?_inside standard nests
      intro closing
      obtain ⟨found, again, nonempty⟩ := openings?_of_leavesOpen (kept closing)
      rw [reached] at again
      cases again
      exact nonempty.mp rfl
    simp only [Option.map_some, Option.bind_some, inside, Delimiters.openings?, List.foldlM_cons,
      List.foldlM_nil]
    cases standard.advance? openings c <;> rfl

/-- Openings of a text that leaves nothing open. -/
theorem openings?_of_not_leavesOpen {text : String}
    (checked : standard.leavesOpen text = .ok false) :
    ∃ escaped, standard.openings? {} text.toList = some ⟨[], escaped⟩ := by
  obtain ⟨⟨stack, escaped⟩, reached, empty⟩ := openings?_of_leavesOpen checked
  have : stack = [] := by simpa using empty
  exact ⟨escaped, this ▸ reached⟩

private theorem pushListed_reaches {delimiter : Delimiter} {items : List String} {item : String}
    {c : Char} {progress : Progress} (isStandard : (Enclosed.list delimiter items item).IsStandard)
    (pushed : Enclosed.pushListed standard delimiter items item c = .ok progress) :
    progress.Reaches ((Enclosed.list delimiter items item).openings?.bind
      (standard.advance? · c)) := by
  obtain ⟨kind, opening, found⟩ := isStandard
  obtain ⟨nests, closes, comma⟩ := advance?_standard found (by rw [kind]; decide)
  rcases Enclosed.pushListed_cases pushed with ⟨rfl, kept⟩ | ⟨checked, -, rfl, rfl⟩ |
    ⟨checked, rfl, rfl⟩
  · exact ⟨⟨kind, opening, found⟩, openings?_push_inside nests fun closing => kept (.inr closing)⟩
  · obtain ⟨escaped, reached⟩ := openings?_of_not_leavesOpen checked
    refine ⟨⟨kind, opening, found⟩, ?_⟩
    rw [Enclosed.openings?, reached]
    cases escaped with
    | true => rfl
    | false => exact comma
  · intro balanced
    have reached : standard.openings? {} item.toList = some {} := by
      by_cases blank : Enclosed.isBlankText item = true
      · exact openings?_of_isBlankText blank
      · apply balanced
        rw [if_neg blank]
        exact List.mem_append_right _ (List.mem_singleton_self item)
    rw [Enclosed.openings?, reached]
    exact closes

private theorem pushGrouped_reaches {delimiter : Delimiter} {body : String} {c : Char}
    {progress : Progress} (isStandard : (Enclosed.group delimiter body).IsStandard)
    (pushed : Enclosed.pushGrouped standard delimiter body c = .ok progress) :
    progress.Reaches ((Enclosed.group delimiter body).openings?.bind
      (standard.advance? · c)) := by
  obtain ⟨kind, opening, found⟩ := isStandard
  obtain ⟨nests, closes, -⟩ := advance?_standard found (by rw [kind]; decide)
  rcases Enclosed.pushGrouped_cases pushed with ⟨rfl, kept⟩ | ⟨-, rfl, rfl⟩
  · exact ⟨⟨kind, opening, found⟩, openings?_push_inside nests kept⟩
  · intro balanced
    have reached := balanced body (List.mem_singleton_self body)
    rw [Enclosed.openings?, reached]
    exact closes

/-- A character inside a literal moves the openings as it moves the literal. -/
theorem push_reaches {literal : Enclosed} {c : Char} {progress : Progress}
    (isStandard : literal.IsStandard) (pushed : literal.push standard c = .ok progress) :
    progress.Reaches (literal.openings?.bind (standard.advance? · c)) := by
  cases literal with
  | quote delimiter text escaped =>
    cases pushed
    exact pushQuoted_reaches text escaped c isStandard
  | list delimiter items item => exact pushListed_reaches isStandard pushed
  | group delimiter body => exact pushGrouped_reaches isStandard pushed

theorem mem_marks_of_find?_standard {c : Char} {delimiter : Delimiter}
    (found : standard.find? c = some delimiter) : c ∈ marks ∧ delimiter.start = c := by
  rw [find?_standard] at found
  repeat' split at found
  all_goals cases found
  all_goals subst c
  all_goals decide

/-- A character that opens a literal opens it for both. -/
theorem openings?_ofDelimiter {c : Char} {delimiter : Delimiter}
    (found : standard.find? c = some delimiter) :
    (Enclosed.ofDelimiter delimiter).IsStandard ∧
      standard.advance? {} c = (Enclosed.ofDelimiter delimiter).openings? := by
  obtain ⟨-, rfl⟩ := mem_marks_of_find?_standard found
  rcases cases_of_find?_standard found with rfl | rfl | rfl | rfl
  · exact ⟨⟨rfl, _, found⟩, by decide⟩
  · exact ⟨⟨rfl, _, found⟩, by decide⟩
  · exact ⟨⟨rfl, _, found⟩, by decide⟩
  · exact ⟨⟨rfl, _, found⟩, by decide⟩

/-- A piece that can be finished leaves nothing open. -/
theorem isPlain_of_finish {pending : Pending} {lexemes : List Lexeme}
    (finished : finish pending = .ok lexemes) : pending.isPlain = true := by
  cases pending with
  | enclosed literal start => cases finished
  | nothing | operator | word | number => rfl

theorem openings?_of_isPlain {pending : Pending} (plain : pending.isPlain = true) :
    pending.openings? = some {} := by
  cases pending with
  | enclosed => cases plain
  | nothing | operator | word | number => rfl

/-- An offered character moves the openings as it moves the piece being read. -/
theorem offer_openings? {position : Nat} {c : Char} {pending next : Pending}
    {ended : List Lexeme} (isStandard : pending.IsStandard)
    (offered : offer standard position c pending = .ok (ended, next))
    (balanced : ∀ lexeme ∈ ended, lexeme.IsBalanced) :
    next.IsStandard ∧ pending.openings?.bind (standard.advance? · c) = next.openings? := by
  cases plain : pending.isPlain with
  | true =>
    rw [openings?_of_isPlain plain, Option.bind_some]
    by_cases special : c ∈ marks
    · obtain ⟨delimiter, found, rfl⟩ :=
        offer_of_isPunctuation (isPunctuation_of_mem_marks c special) plain offered
      exact openings?_ofDelimiter found
    · rcases (offer_isFresh standard plain offered).2 with nextPlain | ⟨delimiter, found, rfl⟩
      · rw [advance?_of_not_mem_marks special]
        cases next with
        | enclosed => cases nextPlain
        | nothing | operator | word | number => exact ⟨trivial, rfl⟩
      · exact absurd (mem_marks_of_find?_standard found).1 special
  | false =>
    match pending, plain with
    | .enclosed literal start, _ =>
      rw [offer_enclosed] at offered
      split at offered
      · next longer pushed =>
        cases offered
        exact push_reaches isStandard pushed
      · next lexeme pushed =>
        cases offered
        exact ⟨trivial,
          push_reaches isStandard pushed (balanced lexeme (List.mem_singleton_self _))⟩
      · cases offered

/-- The check and the scan agree on what is open behind a text, if the lexemes in it are
balanced. -/
theorem feed_openings? {position : Nat} {pending next : Pending} {text : List Char}
    {ended : List Lexeme} (isStandard : pending.IsStandard)
    (fed : feed standard position pending text = .ok (ended, next))
    (balanced : ∀ lexeme ∈ ended, lexeme.IsBalanced) :
    next.IsStandard ∧ pending.openings?.bind (standard.openings? · text) = next.openings? := by
  induction text generalizing position pending ended with
  | nil =>
    cases fed
    exact ⟨isStandard, Option.bind_fun_some _⟩
  | cons c rest ih =>
    rw [feed_cons] at fed
    obtain ⟨⟨first, middle⟩, offered, fed⟩ := Result.bind_eq_ok.mp fed
    obtain ⟨⟨later, last⟩, rest, same⟩ := Result.bind_eq_ok.mp fed
    cases same
    obtain ⟨middleStandard, moved⟩ := offer_openings? isStandard offered
      fun lexeme member => balanced lexeme (List.mem_append_left _ member)
    obtain ⟨lastStandard, reached⟩ := ih middleStandard rest
      fun lexeme member => balanced lexeme (List.mem_append_right _ member)
    refine ⟨lastStandard, ?_⟩
    rw [← reached, ← moved, Option.bind_assoc]
    rfl

end Lexeme

namespace Expression

open Delimiters Lexeme

/-- A text that can be read leaves nothing open, not even an escape. -/
theorem openings?_of_read {text : String} {expression : Expression}
    (answer : read standard text = .ok expression) :
    standard.openings? {} text.toList = some {} := by
  obtain ⟨ended, last, lexemes, fed, finished, all, lexemesRead⟩ := exists_feed_of_read answer
  have balanced : ∀ lexeme ∈ ended, lexeme.IsBalanced := by
    intro lexeme member inner inside
    have listed : lexeme ∈ (scan standard text).lexemes := by
      rw [all]
      exact List.mem_append_left _ member
    have shorter : inner.length < text.length := (isCut_of_mem_scan listed inside).1
    obtain ⟨token, tokenRead⟩ :=
      Result.exists_of_mapM_eq_ok lexemesRead (List.mem_append_left _ member)
    obtain ⟨innerExpression, innerRead⟩ := exists_of_read tokenRead inner inside
    exact openings?_of_read innerRead
  have start : Pending.IsStandard .nothing := trivial
  have reached := (feed_openings? start fed balanced).2
  rw [openings?_of_isPlain (isPlain_of_finish finished)] at reached
  exact reached
termination_by text.length

end Expression

/-- The failure of a literal that is still open at the end. -/
def Error.isUnexpectedEnd : Error → Bool
  | .malformed ⟨_, .unexpectedEnd _⟩ => true
  | _ => false

/-- The failures with which a piece refuses a character, or ends as something else than a token. -/
def Error.isRefusal : Error → Bool
  | .unknownOperator _ _ => true
  | .malformed ⟨_, .unexpectedCharacter _⟩ => true
  | .malformed ⟨_, .literalInsideWord _⟩ => true
  | .malformed ⟨_, .literalInsideNumber _⟩ => true
  | .malformed ⟨_, .unmatchedClose _ _⟩ => true
  | .malformed ⟨_, .emptyListItem⟩ => true
  | .malformed ⟨_, .emptySegment _⟩ => true
  | _ => false

private theorem Error.isUnexpectedEnd_of_isRefusal {error : Error}
    (refusal : error.isRefusal = true) : error.isUnexpectedEnd = false := by
  rw [isRefusal.eq_def] at refusal
  split at refusal <;> first | rfl | cases refusal

namespace Lexeme

variable {delimiters : Delimiters} {position : Nat} {c : Char} {error : Error}

private theorem isRefusal_ofWord {text : String} {start : Nat}
    (failed : ofWord text start = .error error) : error.isRefusal = true := by
  rw [ofWord] at failed
  split at failed
  · cases failed
  · next fault path =>
    cases failed
    simp only [Identifier.ofPath] at path
    split at path
    · next found =>
      cases path
      obtain ⟨segment, -, same⟩ := List.exists_of_findSome?_eq_some found
      rw [Identifier.segmentFault?] at same
      split at same
      · cases same
        rfl
      · obtain ⟨misplaced, -, rfl⟩ := Option.map_eq_some_iff.mp same
        rfl
    · split at path
      · cases path
        rfl
      · cases path

private theorem isRefusal_begin (failed : begin delimiters position c = .error error) :
    error.isRefusal = true := by
  rw [begin] at failed
  repeat' split at failed
  all_goals cases failed
  rfl

private theorem isRefusal_endWith {lexeme : Lexeme}
    (failed : endWith delimiters position c lexeme = .error error) : error.isRefusal = true := by
  rcases Result.bind_eq_error.mp failed with begun | ⟨_, -, impossible⟩
  · exact isRefusal_begin begun
  · cases impossible

private theorem advance_error {text : String} {openings : Delimiters.Openings} {fault : SyntaxFault}
    (failed : delimiters.advance text openings c = .error fault) :
    fault = .unmatchedClose c text := by
  rw [Delimiters.advance.eq_def] at failed
  repeat' split at failed
  all_goals cases failed
  all_goals rfl

private theorem leavesOpen_error {text : String} {fault : SyntaxFault}
    (failed : delimiters.leavesOpen text = .error fault) :
    ∃ closing, fault = .unmatchedClose closing text := by
  rcases Result.bind_eq_error.mp failed with folded | ⟨_, -, impossible⟩
  · generalize text.toList = rest at folded
    generalize ({} : Delimiters.Openings) = openings at folded
    induction rest generalizing openings with
    | nil => cases folded
    | cons c rest ih =>
      rw [List.foldlM_cons] at folded
      rcases Result.bind_eq_error.mp folded with here | ⟨next, -, later⟩
      · exact ⟨c, advance_error here⟩
      · exact ih next later
  · cases impossible

/-- An open literal refuses a character only for an empty item or an unmatched closing character. -/
theorem push_error {literal : Enclosed} {fault : SyntaxFault}
    (failed : literal.push delimiters c = .error fault) :
    fault = .emptyListItem ∨ ∃ closing text, fault = .unmatchedClose closing text := by
  have check {text : String} {α : Type} {next : Bool → Except SyntaxFault α}
      (answers : ∀ b, next b = .error fault → fault = .emptyListItem)
      (failed : (delimiters.leavesOpen text >>= next) = .error fault) :
      fault = .emptyListItem ∨ ∃ closing text, fault = .unmatchedClose closing text := by
    rcases Result.bind_eq_error.mp failed with unmatched | ⟨answer, -, later⟩
    · obtain ⟨closing, rfl⟩ := leavesOpen_error unmatched
      exact .inr ⟨closing, text, rfl⟩
    · exact .inl (answers answer later)
  cases literal with
  | quote delimiter text escaped => cases failed
  | list delimiter items item =>
    rw [Enclosed.push, Enclosed.pushListed] at failed
    split at failed
    · refine check (fun answer later => ?_) failed
      repeat' split at later
      all_goals cases later
      rfl
    · cases failed
  | group delimiter body =>
    rw [Enclosed.push, Enclosed.pushGrouped] at failed
    split at failed
    · refine check (fun answer later => ?_) failed
      repeat' split at later
      all_goals cases later
    · cases failed

private theorem isRefusal_step {pending : Pending}
    (failed : step delimiters position c pending = .error error) : error.isRefusal = true := by
  cases pending with
  | nothing =>
    rcases Result.bind_eq_error.mp failed with begun | ⟨_, -, impossible⟩
    · exact isRefusal_begin begun
    · cases impossible
  | operator text start =>
    simp only [step, stepOperator] at failed
    repeat' split at failed
    all_goals try cases failed
    · exact isRefusal_endWith failed
    · rfl
  | word text start =>
    simp only [step, stepWord] at failed
    split at failed
    · cases failed
      rfl
    · split at failed
      · cases failed
      · rcases Result.bind_eq_error.mp failed with word | ⟨lexeme, -, ended⟩
        · exact isRefusal_ofWord word
        · exact isRefusal_endWith ended
  | number numeral =>
    simp only [step, stepNumber] at failed
    split at failed
    · cases failed
      rfl
    · split at failed <;> cases failed
  | enclosed literal start =>
    simp only [step, stepEnclosed] at failed
    split at failed
    · cases failed
    · cases failed
    · next fault pushed =>
      cases failed
      rcases push_error pushed with rfl | ⟨closing, text, rfl⟩ <;> rfl

theorem isRefusal_feed {pending : Pending} {text : List Char}
    (failed : feed delimiters position pending text = .error error) :
    error.isRefusal = true := by
  induction text generalizing position pending with
  | nil => cases failed
  | cons c rest ih =>
    rcases Result.bind_eq_error.mp failed with offered | ⟨first, -, failed⟩
    · rcases Result.bind_eq_error.mp offered with stepped | ⟨taken, -, again⟩
      · exact isRefusal_step stepped
      · split at again
        · cases again
        · rcases Result.bind_eq_error.mp again with stepped | ⟨_, -, impossible⟩
          · exact isRefusal_step stepped
          · cases impossible
    · rcases Result.bind_eq_error.mp failed with later | ⟨_, -, impossible⟩
      · exact ih later
      · cases impossible

/-- An open literal has a delimiter that is open, or cannot be closed any more. -/
theorem stack_of_enclosed {literal : Enclosed} {openings : Delimiters.Openings}
    (reached : literal.openings? = some openings) : openings.stack ≠ [] := by
  cases literal with
  | quote delimiter text escaped =>
    cases reached
    exact List.cons_ne_nil _ _
  | list delimiter items item =>
    obtain ⟨inner, -, rfl⟩ := Option.map_eq_some_iff.mp reached
    exact List.append_ne_nil_of_right_ne_nil _ (List.cons_ne_nil _ _)
  | group delimiter body =>
    obtain ⟨inner, -, rfl⟩ := Option.map_eq_some_iff.mp reached
    exact List.append_ne_nil_of_right_ne_nil _ (List.cons_ne_nil _ _)

/-- What is no open literal ends with the text, or is refused. -/
theorem isRefusal_finish {pending : Pending} (failed : finish pending = .error error)
    (plain : pending.isPlain = true) : error.isRefusal = true := by
  have word {text : String} {start : Nat}
      (failed : (do return [← ofWord text start]) = Except.error error) :
      error.isRefusal = true := by
    rcases Result.bind_eq_error.mp failed with word | ⟨_, -, impossible⟩
    · exact isRefusal_ofWord word
    · cases impossible
  cases pending with
  | nothing => cases failed
  | operator text start =>
    rw [finish] at failed
    split at failed
    · cases failed
    · split at failed
      · exact word failed
      · cases failed
        rfl
  | word text start => exact word failed
  | number numeral => cases failed
  | enclosed literal start => cases plain

private theorem isUnexpectedEnd_finish {pending : Pending} (failed : finish pending = .error error)
    (unexpected : error.isUnexpectedEnd = true) : pending.isPlain = false := by
  rw [Bool.eq_false_iff]
  intro plain
  rw [Error.isUnexpectedEnd_of_isRefusal (isRefusal_finish failed plain)] at unexpected
  cases unexpected

end Lexeme

namespace Expression

open Delimiters Lexeme

theorem leavesOpen_of_read {text : String} {expression : Expression}
    (answer : read standard text = .ok expression) : standard.leavesOpen text = .ok false :=
  (leavesOpen_eq_ok_iff standard).mpr ⟨{}, openings?_of_read answer, rfl⟩

theorem isBalanced_of_read {lexeme : Lexeme} {token : Token}
    (answer : lexeme.read (read standard) = .ok token) : lexeme.IsBalanced := by
  intro inner inside
  obtain ⟨expression, innerRead⟩ := exists_of_read answer inner inside
  exact openings?_of_read innerRead

/-- A text that ends inside a literal leaves it open. -/
theorem leavesOpen_of_isUnexpectedEnd {text : String} {error : Error}
    (answer : read standard text = .error error) (unexpected : error.isUnexpectedEnd = true) :
    standard.leavesOpen text ≠ .ok false := by
  have innerFails {lexeme : Lexeme} (member : lexeme ∈ (scan standard text).lexemes)
      (failed : lexeme.read (read standard) = .error error) : False := by
    obtain ⟨inner, inside, innerFailed⟩ := exists_of_read_error failed
    have cut := isCut_of_mem_scan member inside
    have shorter : inner.length < text.length := cut.1
    exact leavesOpen_of_isUnexpectedEnd innerFailed unexpected cut.2
  rw [read_eq] at answer
  rcases Result.bind_eq_error.mp answer with failed | ⟨tokens, lexemesRead, failed⟩
  · obtain ⟨lexeme, member, lexemeFailed⟩ := Result.exists_of_mapM_eq_error failed
    exact (innerFails member lexemeFailed).elim
  · rcases scanFrom_cases standard 0 .nothing text.toList with
      ⟨ended, last, fed, same⟩ | ⟨failure, fed, same⟩
    · rw [scan, same] at lexemesRead failed
      split at failed
      · next failure stopped =>
        cases failed
        split at stopped
        · cases stopped
        · next finished =>
          cases stopped
          intro checked
          have balanced : ∀ lexeme ∈ ended, lexeme.IsBalanced := by
            intro lexeme member
            rw [finished] at lexemesRead
            obtain ⟨token, tokenRead⟩ := Result.exists_of_mapM_eq_ok lexemesRead member
            exact isBalanced_of_read tokenRead
          have start : Pending.IsStandard .nothing := trivial
          have reached := (feed_openings? start fed balanced).2
          obtain ⟨escaped, closed⟩ := openings?_of_not_leavesOpen checked
          rw [openings?_of_isPlain rfl, Option.bind_some, closed] at reached
          have notPlain := isUnexpectedEnd_finish finished unexpected
          cases last with
          | enclosed literal start => exact stack_of_enclosed reached.symm rfl
          | nothing | operator | word | number => cases notPlain
      · cases failed
    · rw [scan, same] at failed
      cases failed
      rw [Error.isUnexpectedEnd_of_isRefusal (isRefusal_feed fed)] at unexpected
      cases unexpected
termination_by text.length

/-- With the standard delimiters the check and the reading of expressions agree on what is open:
a text that is read leaves nothing open, one that ends too early does, and no item of a list and
no body of a group that has been cut out ends too early. -/
theorem leavesOpen_agrees_with_read (text : String) :
    (∀ expression, read standard text = .ok expression →
      standard.leavesOpen text = .ok false) ∧
    (∀ position pending,
      read standard text = .error (.malformed ⟨position, .unexpectedEnd pending⟩) →
        standard.leavesOpen text ≠ .ok false) ∧
    (∀ lexeme ∈ (scan standard text).lexemes, ∀ inner ∈ lexeme.inners, ∀ position pending,
      read standard inner ≠ .error (.malformed ⟨position, .unexpectedEnd pending⟩)) := by
  refine ⟨fun _ => leavesOpen_of_read,
    fun _ _ failed => leavesOpen_of_isUnexpectedEnd failed rfl, ?_⟩
  intro lexeme member inner inside position pending failed
  exact leavesOpen_of_isUnexpectedEnd failed rfl (isCut_of_mem_scan member inside).2

end Expression

end Stencil
