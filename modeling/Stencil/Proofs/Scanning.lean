import Stencil.Expression.Reading
import Stencil.Proofs.Result

/-! # Scanning step by step

A scan offers the characters of a text one after the other. The texts that it cuts out, the items
of lists and the bodies of groups, leave no literal open and are shorter than the text around them,
so that reading an expression is a recursion on the length of its text: `Expression.read_eq`.
-/

namespace Stencil

namespace Lexeme

/-- The texts inside a lexeme that are still to be read. -/
def inners : Lexeme → List String
  | .token _ => []
  | .list items => items
  | .group body => [body]

/-- A piece that is not an open literal. -/
def Pending.isPlain : Pending → Bool
  | .enclosed _ _ => false
  | _ => true

/-- A piece that a character can leave behind when no literal was open before it: a plain one, or
the literal that the character opens. -/
def Pending.IsFresh (delimiters : Delimiters) (position : Nat) (c : Char) (pending : Pending) :
    Prop :=
  pending.isPlain = true ∨ ∃ delimiter, delimiters.find? c = some delimiter ∧
    pending = .enclosed (.ofDelimiter delimiter) position

variable (delimiters : Delimiters)

section OneCharacter

private theorem begin_isFresh {position : Nat} {c : Char} {next : Pending}
    (begun : begin delimiters position c = .ok next) : next.IsFresh delimiters position c := by
  rw [begin] at begun
  split at begun
  · next delimiter found =>
    cases begun
    exact .inr ⟨delimiter, found, rfl⟩
  · left
    split at begun
    · cases begun; rfl
    · split at begun
      · cases begun; rfl
      · split at begun
        · cases begun; rfl
        · split at begun
          · cases begun; rfl
          · cases begun

/-- What a step leaves when no literal was open before it: the lexemes that it ended have no inner
texts, and a character that was not consumed leaves a plain piece. -/
def Step.IsFresh (position : Nat) (c : Char) (taken : Step) : Prop :=
  (∀ lexeme ∈ taken.ended, lexeme.inners = []) ∧ taken.pending.IsFresh delimiters position c ∧
    (taken.consumed = false → taken.pending.isPlain = true)

private theorem endWith_isFresh {position : Nat} {c : Char} {lexeme : Lexeme} {taken : Step}
    (ended : endWith delimiters position c lexeme = .ok taken) (token : lexeme.inners = []) :
    taken.IsFresh delimiters position c := by
  obtain ⟨next, begun, same⟩ := Result.bind_eq_ok.mp ended
  cases same
  exact ⟨by simpa using token, begin_isFresh delimiters begun, by simp⟩

private theorem inners_ofWord {text : String} {start : Nat} {lexeme : Lexeme}
    (read : ofWord text start = .ok lexeme) : lexeme.inners = [] := by
  rw [ofWord] at read
  split at read
  · cases read; rfl
  · cases read

private theorem isFresh_plain {position : Nat} {c : Char} {ended : List Lexeme} {pending : Pending}
    {consumed : Bool} (tokens : ∀ lexeme ∈ ended, lexeme.inners = [])
    (plain : pending.isPlain = true) :
    Step.IsFresh delimiters position c ⟨ended, pending, consumed⟩ :=
  ⟨tokens, .inl plain, fun _ => plain⟩

theorem step_isFresh {position : Nat} {c : Char} {pending : Pending} {taken : Step}
    (plain : pending.isPlain = true) (stepped : step delimiters position c pending = .ok taken) :
    taken.IsFresh delimiters position c := by
  cases pending with
  | nothing =>
    obtain ⟨next, begun, same⟩ := Result.bind_eq_ok.mp stepped
    cases same
    exact ⟨by simp, begin_isFresh delimiters begun, by simp⟩
  | operator text start =>
    simp only [step, stepOperator] at stepped
    split at stepped
    · cases stepped
      exact isFresh_plain delimiters (by simp) rfl
    · split at stepped
      · split at stepped
        · cases stepped
          exact isFresh_plain delimiters (by simp) rfl
        · exact endWith_isFresh delimiters stepped rfl
      · split at stepped
        · cases stepped
          exact isFresh_plain delimiters (by simp) rfl
        · split at stepped
          · cases stepped
            exact isFresh_plain delimiters (by simp) rfl
          · cases stepped
  | word text start =>
    simp only [step, stepWord] at stepped
    split at stepped
    · cases stepped
    · split at stepped
      · cases stepped
        exact isFresh_plain delimiters (by simp) rfl
      · obtain ⟨lexeme, read, ended⟩ := Result.bind_eq_ok.mp stepped
        exact endWith_isFresh delimiters ended (inners_ofWord read)
  | number numeral =>
    simp only [step, stepNumber] at stepped
    split at stepped
    · cases stepped
    · split at stepped
      · cases stepped
        exact isFresh_plain delimiters (by simp) rfl
      · cases stepped
        exact isFresh_plain delimiters (by simp [ofNumeral, inners]) rfl
  | enclosed literal start => cases plain

/-- A character that is offered while no literal is open. -/
theorem offer_isFresh {position : Nat} {c : Char} {pending next : Pending} {ended : List Lexeme}
    (plain : pending.isPlain = true)
    (offered : offer delimiters position c pending = .ok (ended, next)) :
    (∀ lexeme ∈ ended, lexeme.inners = []) ∧ next.IsFresh delimiters position c := by
  obtain ⟨first, stepped, offered⟩ := Result.bind_eq_ok.mp offered
  obtain ⟨firstTokens, firstFresh, firstPlain⟩ := step_isFresh delimiters plain stepped
  split at offered
  · cases offered
    exact ⟨firstTokens, firstFresh⟩
  · next given =>
    obtain ⟨second, again, same⟩ := Result.bind_eq_ok.mp offered
    cases same
    obtain ⟨secondTokens, secondFresh, -⟩ :=
      step_isFresh delimiters (firstPlain (by simpa using given)) again
    refine ⟨fun lexeme member => ?_, secondFresh⟩
    rcases List.mem_append.mp member with member | member
    · exact firstTokens lexeme member
    · exact secondTokens lexeme member

/-- A character that is no part of an operator, a name, a number or a blank: only a literal can
hold it. -/
def isPunctuation (c : Char) : Bool :=
  !(Operator.all.any fun operator => operator.symbol.toList.contains c) &&
    !Identifier.isNameChar false c && c != '.' && !Text.isBlank c

theorem exists_symbol_of_beginsSymbol {text : String} {c : Char}
    (begins : Operator.beginsSymbol text = true) (member : c ∈ text.toList) :
    (Operator.all.any fun operator => operator.symbol.toList.contains c) = true := by
  rw [Operator.beginsSymbol, List.any_eq_true] at begins
  obtain ⟨operator, listed, isPrefix⟩ := begins
  rw [List.any_eq_true]
  refine ⟨operator, listed, ?_⟩
  rw [List.contains_iff_mem]
  exact (List.isPrefixOf_iff_prefix.mp isPrefix).subset member

theorem isNameChar_of_isDigit {c : Char} (digit : c.isDigit = true) :
    Identifier.isNameChar false c = true := by
  simp [Identifier.isNameChar, digit]

theorem isNameChar_of_first {c : Char} {first : Bool}
    (starts : Identifier.isNameChar first c = true) : Identifier.isNameChar false c = true := by
  cases first with
  | false => exact starts
  | true =>
    simp only [Identifier.isNameChar, Bool.not_true, Bool.false_and, Bool.or_false] at starts
    simp [Identifier.isNameChar, starts]

/-- Every character of a name may stand in one. -/
theorem isNameChar_of_isName {text : String} (name : Identifier.isName text = true) {c : Char}
    (member : c ∈ text.toList) : Identifier.isNameChar false c = true := by
  rw [Identifier.isName, Bool.and_eq_true, Option.isNone_iff_eq_none] at name
  cases chars : text.toList with
  | nil => simp [chars] at member
  | cons first rest =>
    rw [chars, Identifier.misplaced?] at name
    split at name
    · next starts =>
      rw [chars] at member
      rcases List.mem_cons.mp member with rfl | member
      · exact isNameChar_of_first starts
      · simpa using List.find?_eq_none.mp name.2 c member
    · cases name.2

section Punctuation

variable {delimiters} {c : Char} (punctuation : isPunctuation c = true)
include punctuation

private theorem not_mem_symbol_of_isPunctuation :
    (Operator.all.any fun operator => operator.symbol.toList.contains c) = false := by
  simp only [isPunctuation, Bool.and_eq_true, Bool.not_eq_true'] at punctuation
  exact punctuation.1.1.1

private theorem not_isNameChar_of_isPunctuation (first : Bool) :
    Identifier.isNameChar first c = false := by
  simp only [isPunctuation, Bool.and_eq_true, Bool.not_eq_true'] at punctuation
  rw [Bool.eq_false_iff]
  intro name
  rw [isNameChar_of_first name] at punctuation
  cases punctuation.1.1.2

private theorem ne_point_of_isPunctuation : c ≠ '.' := by
  simp only [isPunctuation, Bool.and_eq_true, bne_iff_ne] at punctuation
  exact punctuation.1.2

theorem not_isBlank_of_isPunctuation : Text.isBlank c = false := by
  simp only [isPunctuation, Bool.and_eq_true, Bool.not_eq_true'] at punctuation
  exact punctuation.2

private theorem not_isDigit_of_isPunctuation : c.isDigit = false := by
  rw [Bool.eq_false_iff]
  intro digit
  have name := isNameChar_of_isDigit digit
  rw [not_isNameChar_of_isPunctuation punctuation] at name
  cases name

private theorem not_beginsSymbol_of_isPunctuation {text : String} (member : c ∈ text.toList) :
    Operator.beginsSymbol text = false := by
  rw [Bool.eq_false_iff]
  intro begins
  have found := exists_symbol_of_beginsSymbol begins member
  rw [not_mem_symbol_of_isPunctuation punctuation] at found
  cases found

private theorem not_isName_of_isPunctuation {text : String} (member : c ∈ text.toList) :
    Identifier.isName text = false := by
  rw [Bool.eq_false_iff]
  intro name
  have inName := isNameChar_of_isName name member
  rw [not_isNameChar_of_isPunctuation punctuation] at inName
  cases inName

private theorem begin_of_isPunctuation {position : Nat} {next : Pending}
    (begun : begin delimiters position c = .ok next) :
    ∃ delimiter, delimiters.find? c = some delimiter ∧
      next = .enclosed (.ofDelimiter delimiter) position := by
  rw [begin] at begun
  split at begun
  · next delimiter found =>
    cases begun
    exact ⟨delimiter, found, rfl⟩
  · rw [not_beginsSymbol_of_isPunctuation punctuation (by simp [Char.toString]),
      not_isDigit_of_isPunctuation punctuation, not_isNameChar_of_isPunctuation punctuation,
      not_isBlank_of_isPunctuation punctuation] at begun
    cases begun

private theorem stepWord_of_isPunctuation {position start : Nat} {text : String} {taken : Step} :
    stepWord delimiters position c text start ≠ .ok taken := by
  intro stepped
  rw [stepWord] at stepped
  split at stepped
  · cases stepped
  · next free =>
    rw [not_isNameChar_of_isPunctuation punctuation, if_neg (by
      simp [ne_point_of_isPunctuation punctuation])] at stepped
    obtain ⟨lexeme, -, ended⟩ := Result.bind_eq_ok.mp stepped
    obtain ⟨next, begun, -⟩ := Result.bind_eq_ok.mp ended
    obtain ⟨delimiter, found, -⟩ := begin_of_isPunctuation punctuation begun
    simp [found] at free

/-- Where no literal is open, punctuation can only open one. -/
theorem offer_of_isPunctuation {position : Nat} {pending next : Pending} {ended : List Lexeme}
    (plain : pending.isPlain = true)
    (offered : offer delimiters position c pending = .ok (ended, next)) :
    ∃ delimiter, delimiters.find? c = some delimiter ∧
      next = .enclosed (.ofDelimiter delimiter) position := by
  obtain ⟨first, stepped, offered⟩ := Result.bind_eq_ok.mp offered
  cases pending with
  | enclosed => cases plain
  | nothing =>
    obtain ⟨after, begun, same⟩ := Result.bind_eq_ok.mp stepped
    cases same
    cases offered
    exact begin_of_isPunctuation punctuation begun
  | operator text start =>
    have member : c ∈ (text.push c).toList := by simp
    simp only [step, stepOperator, not_beginsSymbol_of_isPunctuation punctuation member,
      not_isName_of_isPunctuation punctuation member, Bool.and_false, Bool.false_eq_true,
      if_false] at stepped
    split at stepped
    · obtain ⟨after, begun, same⟩ := Result.bind_eq_ok.mp stepped
      cases same
      cases offered
      exact begin_of_isPunctuation punctuation begun
    · split at stepped
      · cases stepped
        obtain ⟨second, again, -⟩ := Result.bind_eq_ok.mp offered
        exact absurd again (stepWord_of_isPunctuation punctuation)
      · cases stepped
  | word text start => exact absurd stepped (stepWord_of_isPunctuation punctuation)
  | number numeral =>
    have ends : numeral.push? c = none := by
      simp [Decimal.Numeral.push?, not_isDigit_of_isPunctuation punctuation,
        ne_point_of_isPunctuation punctuation]
    rw [step, stepNumber, ends] at stepped
    split at stepped
    · cases stepped
    · next free =>
      cases stepped
      obtain ⟨second, again, -⟩ := Result.bind_eq_ok.mp offered
      obtain ⟨after, begun, -⟩ := Result.bind_eq_ok.mp again
      obtain ⟨delimiter, found, -⟩ := begin_of_isPunctuation punctuation begun
      simp [found] at free

end Punctuation

/-- A character that is offered to an open literal is always consumed. -/
theorem offer_enclosed (position : Nat) (c : Char) (literal : Enclosed) (start : Nat) :
    offer delimiters position c (.enclosed literal start) =
      match literal.push delimiters c with
      | .ok (.more longer) => .ok ([], .enclosed longer start)
      | .ok (.closed lexeme) => .ok ([lexeme], .nothing)
      | .error fault => .error (fault.placed position) := by
  rcases answer : literal.push delimiters c with fault | (longer | lexeme)
  · simp only [offer, step, stepEnclosed, answer, Result.error_bind]
  · simp only [offer, step, stepEnclosed, answer, Result.ok_bind, if_true]
    rfl
  · simp only [offer, step, stepEnclosed, answer, Result.ok_bind, if_true]
    rfl

end OneCharacter

section Cuts

namespace Enclosed

variable {delimiters}

/-- What a character inside a list can do: it belongs to the item, ends the item, or ends the
list. -/
theorem pushListed_cases {delimiter : Delimiter} {items : List String} {item : String} {c : Char}
    {progress : Progress} (pushed : pushListed delimiters delimiter items item c = .ok progress) :
    (progress = .more (.list delimiter items (item.push c)) ∧
      (c = ',' ∨ delimiter.close = c → delimiters.leavesOpen item = .ok true)) ∨
    (delimiters.leavesOpen item = .ok false ∧ isBlankText item = false ∧ c = ',' ∧
      progress = .more (.list delimiter (items ++ [item]) "")) ∨
    (delimiters.leavesOpen item = .ok false ∧ delimiter.close = c ∧
      progress = .closed (.list (if isBlankText item then items else items ++ [item]))) := by
  rw [pushListed] at pushed
  split at pushed
  · next boundary =>
    obtain ⟨opened, answer, pushed⟩ := Result.bind_eq_ok.mp pushed
    cases opened with
    | true =>
      cases pushed
      exact .inl ⟨rfl, fun _ => answer⟩
    | false =>
      rw [if_neg Bool.false_ne_true] at pushed
      split at pushed
      · next comma =>
        split at pushed
        · cases pushed
        · next filled =>
          cases pushed
          exact .inr (.inl ⟨answer, by simpa using filled, comma, rfl⟩)
      · next noComma =>
        refine .inr (.inr ⟨answer, boundary.resolve_left noComma, ?_⟩)
        split at pushed
        · next blank =>
          cases pushed
          rw [if_pos blank]
        · next filled =>
          cases pushed
          rw [if_neg filled]
  · next inside =>
    cases pushed
    exact .inl ⟨rfl, fun boundary => absurd boundary inside⟩

/-- What a character inside a group can do: it belongs to the body or ends the group. -/
theorem pushGrouped_cases {delimiter : Delimiter} {body : String} {c : Char} {progress : Progress}
    (pushed : pushGrouped delimiters delimiter body c = .ok progress) :
    (progress = .more (.group delimiter (body.push c)) ∧
      (delimiter.close = c → delimiters.leavesOpen body = .ok true)) ∨
    (delimiters.leavesOpen body = .ok false ∧ delimiter.close = c ∧
      progress = .closed (.group body)) := by
  rw [pushGrouped] at pushed
  split at pushed
  · next closing =>
    obtain ⟨opened, answer, pushed⟩ := Result.bind_eq_ok.mp pushed
    cases opened with
    | true =>
      cases pushed
      exact .inl ⟨rfl, fun _ => answer⟩
    | false =>
      cases pushed
      exact .inr ⟨answer, closing, rfl⟩
  · next inside =>
    cases pushed
    exact .inl ⟨rfl, fun closing => absurd closing inside⟩

end Enclosed

/-- A text that is cut out of one of at least the given length. -/
def IsCut (size : Nat) (inner : String) : Prop :=
  inner.length < size ∧ delimiters.leavesOpen inner = .ok false

/-- The texts inside an open literal, when a number of characters has been read. -/
def Enclosed.IsWithin (size : Nat) : Enclosed → Prop
  | .quote _ _ _ => True
  | .list _ items item => (∀ inner ∈ items, IsCut delimiters size inner) ∧ item.length < size
  | .group _ body => body.length < size

/-- The texts of an open or closed literal, when a number of characters has been read. -/
def Progress.IsWithin (size : Nat) : Progress → Prop
  | .more literal => literal.IsWithin delimiters size
  | .closed lexeme => ∀ inner ∈ lexeme.inners, IsCut delimiters size inner

/-- The texts inside the piece being read, when a number of characters has been read. -/
def Pending.IsWithin (size : Nat) : Pending → Prop
  | .enclosed literal _ => literal.IsWithin delimiters size
  | _ => True

variable {delimiters}

private theorem IsCut.succ {size : Nat} {inner : String} (cut : IsCut delimiters size inner) :
    IsCut delimiters (size + 1) inner :=
  ⟨Nat.lt_succ_of_lt cut.1, cut.2⟩

private theorem Pending.IsFresh.isWithin {position : Nat} {c : Char} {pending : Pending}
    {size : Nat}
    (fresh : pending.IsFresh delimiters position c) : pending.IsWithin delimiters (size + 1) := by
  rcases fresh with plain | ⟨delimiter, -, rfl⟩
  · cases pending with
    | enclosed => cases plain
    | nothing | operator | word | number => trivial
  · rw [Pending.IsWithin, Enclosed.ofDelimiter]
    cases delimiter.enclosure with
    | quote => trivial
    | list => exact ⟨by simp, Nat.succ_pos size⟩
    | group => exact Nat.succ_pos size

private theorem push_isWithin {size : Nat} {c : Char} {literal : Enclosed} {progress : Progress}
    (within : literal.IsWithin delimiters size)
    (pushed : literal.push delimiters c = .ok progress) :
    progress.IsWithin delimiters (size + 1) := by
  cases literal with
  | quote delimiter text escaped =>
    cases pushed
    rw [Enclosed.pushQuoted]
    repeat' split
    all_goals simp [Progress.IsWithin, Enclosed.IsWithin, inners]
  | list delimiter items item =>
    obtain ⟨cuts, short⟩ := within
    have itemsCut : ∀ inner ∈ items, IsCut delimiters (size + 1) inner :=
      fun inner member => (cuts inner member).succ
    have allCut (answer : delimiters.leavesOpen item = .ok false) :
        ∀ inner ∈ items ++ [item], IsCut delimiters (size + 1) inner := by
      intro inner member
      rcases List.mem_append.mp member with member | member
      · exact itemsCut inner member
      · rw [List.mem_singleton.mp member]
        exact ⟨Nat.lt_succ_of_lt short, answer⟩
    rcases Enclosed.pushListed_cases pushed with ⟨rfl, -⟩ | ⟨answer, -, -, rfl⟩ | ⟨answer, -, rfl⟩
    · exact ⟨itemsCut, by rw [String.length_push]; exact Nat.succ_lt_succ short⟩
    · exact ⟨allCut answer, Nat.succ_pos size⟩
    · rw [Progress.IsWithin, inners]
      split
      · exact itemsCut
      · exact allCut answer
  | group delimiter body =>
    rcases Enclosed.pushGrouped_cases pushed with ⟨rfl, -⟩ | ⟨answer, -, rfl⟩
    · change (body.push c).length < size + 1
      rw [String.length_push]
      exact Nat.succ_lt_succ within
    · intro inner member
      rw [List.mem_singleton.mp member]
      exact ⟨Nat.lt_succ_of_lt within, answer⟩

private theorem offer_isWithin {position size : Nat} {c : Char} {pending next : Pending}
    {ended : List Lexeme} (within : pending.IsWithin delimiters size)
    (offered : offer delimiters position c pending = .ok (ended, next)) :
    next.IsWithin delimiters (size + 1) ∧
      ∀ lexeme ∈ ended, ∀ inner ∈ lexeme.inners, IsCut delimiters (size + 1) inner := by
  cases plain : pending.isPlain with
  | true =>
    obtain ⟨tokens, fresh⟩ := offer_isFresh delimiters plain offered
    exact ⟨fresh.isWithin, fun lexeme member => by simp [tokens lexeme member]⟩
  | false =>
    match pending, plain with
    | .enclosed literal start, _ =>
      rw [offer_enclosed] at offered
      split at offered
      · next longer pushed =>
        cases offered
        exact ⟨push_isWithin within pushed, by simp⟩
      · next lexeme pushed =>
        cases offered
        have cuts : ∀ inner ∈ lexeme.inners, IsCut delimiters (size + 1) inner :=
          push_isWithin within pushed
        exact ⟨trivial, by simpa using cuts⟩
      · cases offered

private theorem inners_of_finish {pending : Pending} {lexemes : List Lexeme}
    (finished : finish pending = .ok lexemes) : ∀ lexeme ∈ lexemes, lexeme.inners = [] := by
  cases pending with
  | nothing =>
    cases finished
    simp
  | operator text start =>
    rw [finish] at finished
    split at finished
    · cases finished
      simp [inners]
    · split at finished
      · obtain ⟨lexeme, read, same⟩ := Result.bind_eq_ok.mp finished
        cases same
        simp [inners_ofWord read]
      · cases finished
  | word text start =>
    obtain ⟨lexeme, read, same⟩ := Result.bind_eq_ok.mp finished
    cases same
    simp [inners_ofWord read]
  | number numeral =>
    cases finished
    simp [ofNumeral, inners]
  | enclosed literal start => cases finished

private theorem isCut_of_mem_scanFrom {position size : Nat} {pending : Pending} {text : List Char}
    (within : pending.IsWithin delimiters size) {lexeme : Lexeme}
    (member : lexeme ∈ (scanFrom delimiters position pending text).lexemes) {inner : String}
    (inside : inner ∈ lexeme.inners) : IsCut delimiters (size + text.length) inner := by
  induction text generalizing position size pending with
  | nil =>
    rw [scanFrom] at member
    split at member
    · next lexemes finished =>
      rw [inners_of_finish finished lexeme member] at inside
      cases inside
    · cases member
  | cons c rest ih =>
    rw [scanFrom] at member
    rw [List.length_cons, Nat.add_comm rest.length 1, ← Nat.add_assoc]
    split at member
    · next ended next offered =>
      obtain ⟨nextWithin, cuts⟩ := offer_isWithin within offered
      rcases List.mem_append.mp member with member | member
      · obtain ⟨short, closed⟩ := cuts lexeme member inner inside
        exact ⟨Nat.lt_of_lt_of_le short (Nat.le_add_right _ _), closed⟩
      · exact ih nextWithin member
    · cases member

/-- An inner text of a scan is shorter than the text and leaves no literal open. -/
theorem isCut_of_mem_scan {text : String} {lexeme : Lexeme}
    (member : lexeme ∈ (scan delimiters text).lexemes) {inner : String}
    (inside : inner ∈ lexeme.inners) : IsCut delimiters text.length inner := by
  have fresh : Pending.IsWithin delimiters 0 .nothing := trivial
  have cut := isCut_of_mem_scanFrom fresh member inside
  rwa [Nat.zero_add, String.length_toList] at cut

/-- What every character of a text keeps of the piece being read, and gives to the lexemes that it
ends, holds of all lexemes of the text. -/
theorem forall_mem_scanFrom {Keeps : Pending → Prop} {Gives : Lexeme → Prop} {text : List Char}
    (ofOffer : ∀ {position c pending ended next}, c ∈ text → Keeps pending →
      offer delimiters position c pending = .ok (ended, next) →
      (∀ lexeme ∈ ended, Gives lexeme) ∧ Keeps next)
    (ofFinish : ∀ {pending lexemes}, Keeps pending → finish pending = .ok lexemes →
      ∀ lexeme ∈ lexemes, Gives lexeme)
    {position : Nat} {pending : Pending} (keeps : Keeps pending) :
    ∀ lexeme ∈ (scanFrom delimiters position pending text).lexemes, Gives lexeme := by
  induction text generalizing position pending with
  | nil =>
    rw [scanFrom]
    split
    · next lexemes finished => exact ofFinish keeps finished
    · exact List.forall_mem_nil _
  | cons c rest ih =>
    rw [scanFrom]
    split
    · next ended next offered =>
      obtain ⟨given, nextKeeps⟩ := ofOffer List.mem_cons_self keeps offered
      exact List.forall_mem_append.mpr
        ⟨given, ih (fun member => ofOffer (List.mem_cons_of_mem c member)) nextKeeps⟩
    · exact List.forall_mem_nil _

end Cuts

section Parts

/-- The lexemes that end within a text and the piece being read behind it. -/
def feed (position : Nat) (pending : Pending) : List Char → Result (List Lexeme × Pending)
  | [] => .ok ([], pending)
  | c :: rest => do
    let (ended, next) ← offer delimiters position c pending
    let (later, last) ← feed (position + 1) next rest
    return (ended ++ later, last)

@[simp] theorem feed_nil (position : Nat) (pending : Pending) :
    feed delimiters position pending [] = .ok ([], pending) := rfl

theorem feed_cons (position : Nat) (pending : Pending) (c : Char) (rest : List Char) :
    feed delimiters position pending (c :: rest) =
      offer delimiters position c pending >>= fun first =>
        feed delimiters (position + 1) first.2 rest >>= fun later =>
          .ok (first.1 ++ later.1, later.2) := rfl

theorem feed_append (position : Nat) (pending : Pending) (front rest : List Char) :
    feed delimiters position pending (front ++ rest) =
      feed delimiters position pending front >>= fun first =>
        feed delimiters (position + front.length) first.2 rest >>= fun later =>
          .ok (first.1 ++ later.1, later.2) := by
  induction front generalizing position pending with
  | nil =>
    rw [List.nil_append, feed_nil, Result.ok_bind]
    exact (bind_pure _).symm
  | cons c front ih =>
    simp only [List.cons_append, feed_cons, ih, bind_assoc, Result.ok_bind, List.append_assoc,
      List.length_cons, Nat.add_assoc, Nat.add_comm 1]

/-- A scan gets through the whole text and finishes the piece read last, or fails at a character. -/
theorem scanFrom_cases (position : Nat) (pending : Pending) (text : List Char) :
    (∃ ended last, feed delimiters position pending text = .ok (ended, last) ∧
      scanFrom delimiters position pending text =
        match finish last with
        | .ok lexemes => ⟨ended ++ lexemes, none⟩
        | .error failure => ⟨ended, some failure⟩) ∨
    ∃ failure, feed delimiters position pending text = .error failure ∧
      (scanFrom delimiters position pending text).failure = some failure := by
  induction text generalizing position pending with
  | nil => exact .inl ⟨[], pending, rfl, rfl⟩
  | cons c rest ih =>
    rw [feed_cons, scanFrom]
    rcases offered : offer delimiters position c pending with failure | ⟨ended, next⟩
    · exact .inr ⟨failure, rfl, rfl⟩
    · simp only [Result.ok_bind, Scan.prepend]
      rcases ih (position + 1) next with ⟨later, last, fed, same⟩ | ⟨failure, fed, same⟩
      · refine .inl ⟨ended ++ later, last, by rw [fed]; rfl, ?_⟩
        rw [same]
        cases finish last with
        | ok lexemes => simp only [List.append_assoc]
        | error failure => rfl
      · exact .inr ⟨failure, by rw [fed]; rfl, same⟩

/-- A scan without failure. -/
theorem scanFrom_failure_eq_none {position : Nat} {pending : Pending} {text : List Char}
    (complete : (scanFrom delimiters position pending text).failure = none) :
    ∃ ended last lexemes, feed delimiters position pending text = .ok (ended, last) ∧
      finish last = .ok lexemes ∧
      (scanFrom delimiters position pending text).lexemes = ended ++ lexemes := by
  rcases scanFrom_cases delimiters position pending text with
    ⟨ended, last, fed, same⟩ | ⟨failure, -, failed⟩
  · rw [same] at complete ⊢
    split at complete
    · next lexemes finished => exact ⟨ended, last, lexemes, fed, finished, rfl⟩
    · cases complete
  · rw [failed] at complete
    cases complete

end Parts

section Unbounded

variable {delimiters}

private theorem read_congr {f g : String → Result Expression} {lexeme : Lexeme}
    (same : ∀ inner ∈ lexeme.inners, f inner = g inner) : lexeme.read f = lexeme.read g := by
  cases lexeme with
  | token => rfl
  | list items =>
    have sameItems : items.mapM f = items.mapM g := Result.mapM_congr_of_mem same
    rw [read, read, sameItems]
  | group body => rw [read, read, same body (List.mem_singleton_self body)]

theorem Scan.read_congr {f g : String → Result Expression} {scan : Scan}
    (same : ∀ lexeme ∈ scan.lexemes, ∀ inner ∈ lexeme.inners, f inner = g inner) :
    scan.read f = scan.read g := by
  rw [read, read,
    Result.mapM_congr_of_mem fun lexeme member => Lexeme.read_congr (same lexeme member)]

theorem Scan.read_eq_ok {inner : String → Result Expression} {scan : Scan} {tokens : Expression}
    (answer : scan.read inner = .ok tokens) :
    scan.failure = none ∧ scan.lexemes.mapM (Lexeme.read inner) = .ok tokens := by
  obtain ⟨found, lexemesRead, rest⟩ := Result.bind_eq_ok.mp answer
  split at rest
  · cases rest
  · next complete =>
    cases rest
    exact ⟨complete, lexemesRead⟩

theorem Scan.read_prepend (inner : String → Result Expression) (lexemes : List Lexeme)
    (scan : Scan) : (scan.prepend lexemes).read inner =
      lexemes.mapM (Lexeme.read inner) >>= fun first =>
        scan.read inner >>= fun rest => .ok (first ++ rest) := by
  simp only [Scan.read, Scan.prepend, List.mapM_append, bind_assoc, pure_bind]
  congr 1
  funext first
  congr 1
  funext rest
  cases scan.failure <;> rfl

/-- A lexeme can only be read if all its inner texts can. -/
theorem exists_of_read {inner : String → Result Expression} {lexeme : Lexeme} {token : Token}
    (answer : lexeme.read inner = .ok token) :
    ∀ text ∈ lexeme.inners, ∃ expression, inner text = .ok expression := by
  cases lexeme with
  | token => simp [inners]
  | list items =>
    obtain ⟨expressions, itemsRead, -⟩ := Result.bind_eq_ok.mp answer
    exact fun text member => Result.exists_of_mapM_eq_ok itemsRead member
  | group body =>
    obtain ⟨expression, bodyRead, -⟩ := Result.bind_eq_ok.mp answer
    intro text member
    exact ⟨expression, List.mem_singleton.mp member ▸ bodyRead⟩

/-- A failure to read a lexeme is the failure of one of its inner texts. -/
theorem exists_of_read_error {inner : String → Result Expression} {lexeme : Lexeme} {error : Error}
    (answer : lexeme.read inner = .error error) :
    ∃ text ∈ lexeme.inners, inner text = .error error := by
  cases lexeme with
  | token => cases answer
  | list items =>
    rcases Result.bind_eq_error.mp answer with failed | ⟨_, -, impossible⟩
    · exact Result.exists_of_mapM_eq_error failed
    · cases impossible
  | group body =>
    rcases Result.bind_eq_error.mp answer with failed | ⟨_, -, impossible⟩
    · exact ⟨body, List.mem_singleton_self body, failed⟩
    · cases impossible

end Unbounded

end Lexeme

namespace Expression

variable (delimiters : Delimiters)

@[simp] theorem readWithin_empty (size : Nat) : readWithin delimiters size "" = .ok [] := by
  cases size <;> rfl

/-- The bound does not matter as long as it is at least the length of the text. -/
theorem readWithin_eq {size other : Nat} {text : String} (fits : text.length ≤ size)
    (otherFits : text.length ≤ other) :
    readWithin delimiters size text = readWithin delimiters other text := by
  induction size generalizing other text with
  | zero =>
    simp [String.length_eq_zero_iff.mp (Nat.le_zero.mp fits)]
  | succ size ih =>
    cases other with
    | zero =>
      simp [String.length_eq_zero_iff.mp (Nat.le_zero.mp otherFits)]
    | succ other =>
      apply Lexeme.Scan.read_congr
      intro lexeme member inner inside
      have short := (Lexeme.isCut_of_mem_scan member inside).1
      exact ih (by omega) (by omega)

/-- Reading a text is scanning it and reading its inner texts. -/
theorem read_eq (text : String) :
    read delimiters text = (Lexeme.scan delimiters text).read (read delimiters) := by
  rw [read, readWithin_eq delimiters (Nat.le_refl _) (Nat.le_succ _), readWithin]
  apply Lexeme.Scan.read_congr
  intro lexeme member inner inside
  have short := (Lexeme.isCut_of_mem_scan member inside).1
  exact readWithin_eq delimiters (Nat.le_of_lt short) (Nat.le_refl _)

variable {delimiters}

/-- A text that is read ends with a piece that the end of the text finishes. -/
theorem exists_feed_of_read {text : String} {expression : Expression}
    (answer : read delimiters text = .ok expression) :
    ∃ ended last lexemes, Lexeme.feed delimiters 0 .nothing text.toList = .ok (ended, last) ∧
      Lexeme.finish last = .ok lexemes ∧
      (Lexeme.scan delimiters text).lexemes = ended ++ lexemes ∧
      (ended ++ lexemes).mapM (Lexeme.read (read delimiters)) = .ok expression := by
  rw [read_eq] at answer
  obtain ⟨complete, lexemesRead⟩ := Lexeme.Scan.read_eq_ok answer
  obtain ⟨ended, last, lexemes, fed, finished, all⟩ :=
    Lexeme.scanFrom_failure_eq_none delimiters complete
  rw [Lexeme.scan, all] at lexemesRead
  exact ⟨ended, last, lexemes, fed, finished, all, lexemesRead⟩

end Expression

end Stencil
