import Stencil.Proofs.RoundTrip
import Stencil.Value.Text

/-! # Texts between quotes

A text is written between single quotes with a backslash only in front of its own single quotes. It
is read as itself, wherever it stands, exactly if it has no backslash at its end or in front of
another backslash or a single quote: `Expression.spells_quoted` and
`Expression.keepsBackslashes_of_closed?`. For where a backslash of the text stands in front of such
a pair, or of the closing quote, it is read as the one that escapes.
-/

namespace Stencil

/-- Whether every backslash is followed by a character, and by none that it would escape. -/
def keepsBackslashes : List Char → Bool
  | [] => true
  | '\\' :: c :: rest => c != '\\' && c != '\'' && keepsBackslashes rest
  | c :: rest => c != '\\' && keepsBackslashes rest

namespace Expression

open Delimiters Lexeme

/-- What an open literal becomes when it is closed by a first part of a text. -/
def closed? : Enclosed → List Char → Option Lexeme
  | _, [] => none
  | literal, c :: rest =>
    match literal.push standard c with
    | .ok (.more longer) => closed? longer rest
    | .ok (.closed lexeme) => some lexeme
    | .error _ => none

/-- The characters of a text make one open literal out of another one. -/
inductive Grows : Enclosed → List Char → Enclosed → Prop
  | nil (literal : Enclosed) : Grows literal [] literal
  | cons {literal next longer : Enclosed} {c : Char} {rest : List Char}
    (pushed : literal.push standard c = .ok (.more next)) (behind : Grows next rest longer) :
    Grows literal (c :: rest) longer

section Closed

variable {literal longer : Enclosed} {lexeme : Lexeme} {c : Char} {chars rest : List Char}

theorem closed?_cons_of_more (pushed : literal.push standard c = .ok (.more longer)) :
    closed? literal (c :: rest) = closed? longer rest := by
  rw [closed?, pushed]

private theorem closed?_cons_of_closed (pushed : literal.push standard c = .ok (.closed lexeme)) :
    closed? literal (c :: rest) = some lexeme := by
  rw [closed?, pushed]

theorem closed?_cons_eq_some (closed : closed? literal (c :: rest) = some lexeme) :
    (∃ longer, literal.push standard c = .ok (.more longer) ∧ closed? longer rest = some lexeme) ∨
      literal.push standard c = .ok (.closed lexeme) := by
  rw [closed?] at closed
  split at closed
  · next longer pushed => exact .inl ⟨longer, pushed, closed⟩
  · next pushed =>
    cases closed
    exact .inr pushed
  · cases closed

theorem closed?_append (closed : closed? literal chars = some lexeme) (more : List Char) :
    closed? literal (chars ++ more) = some lexeme := by
  induction chars generalizing literal with
  | nil => cases closed
  | cons c chars ih =>
    rcases closed?_cons_eq_some closed with ⟨longer, pushed, closed⟩ | pushed
    · rw [List.cons_append, closed?_cons_of_more pushed]
      exact ih closed
    · exact closed?_cons_of_closed pushed

private theorem Grows.append {middle : Enclosed} (first : Grows literal chars middle)
    (second : Grows middle rest longer) : Grows literal (chars ++ rest) longer := by
  induction first with
  | nil => exact second
  | cons pushed _ ih => exact .cons pushed (ih second)

theorem Grows.closed?_append (grows : Grows literal chars longer) (rest : List Char) :
    closed? literal (chars ++ rest) = closed? longer rest := by
  induction grows with
  | nil => rfl
  | cons pushed _ ih => rw [List.cons_append, closed?_cons_of_more pushed, ih]

private theorem Grows.feed_append (grows : Grows literal chars longer) (position start : Nat)
    (rest : List Char) : feed standard position (.enclosed literal start) (chars ++ rest) =
      feed standard (position + chars.length) (.enclosed longer start) rest := by
  induction grows generalizing position with
  | nil => rfl
  | cons pushed _ ih =>
    rw [List.cons_append, feed_cons_of_push pushed, ih, List.length_cons, Nat.add_assoc,
      Nat.add_comm 1]

variable {position start : Nat} {ended lexemes : List Lexeme} {last : Pending}

private theorem feed_cons_enclosed_eq_ok
    (fed : feed standard position (.enclosed literal start) (c :: rest) = .ok (ended, last)) :
    (∃ longer, literal.push standard c = .ok (.more longer) ∧
      feed standard (position + 1) (.enclosed longer start) rest = .ok (ended, last)) ∨
    ∃ lexeme others, literal.push standard c = .ok (.closed lexeme) ∧ ended = lexeme :: others := by
  cases pushed : literal.push standard c with
  | ok progress =>
    cases progress with
    | more longer =>
      rw [feed_cons_of_push pushed] at fed
      exact .inl ⟨longer, rfl, fed⟩
    | closed lexeme =>
      rw [feed_cons, offer_enclosed, pushed] at fed
      obtain ⟨later, -, same⟩ := Result.bind_eq_ok.mp (Result.ok_bind _ _ ▸ fed)
      cases same
      exact .inr ⟨lexeme, later.1, rfl, rfl⟩
  | error fault =>
    rw [feed_cons, offer_enclosed, pushed] at fed
    cases fed

/-- The first lexeme of a text that goes on with an open literal. -/
theorem exists_closed?_of_feed
    (fed : feed standard position (.enclosed literal start) chars = .ok (ended, last))
    (finished : finish last = .ok lexemes) :
    ∃ lexeme others, closed? literal chars = some lexeme ∧ ended ++ lexemes = lexeme :: others := by
  induction chars generalizing literal position with
  | nil =>
    cases fed
    cases finished
  | cons c chars ih =>
    rcases feed_cons_enclosed_eq_ok fed with ⟨longer, pushed, fed⟩ | ⟨lexeme, others, pushed, rfl⟩
    · rw [closed?_cons_of_more pushed]
      exact ih fed
    · exact ⟨lexeme, others ++ lexemes, closed?_cons_of_closed pushed, rfl⟩

theorem grows_of_feed
    (fed : feed standard position (.enclosed literal start) chars =
      .ok ([], .enclosed longer start)) : Grows literal chars longer := by
  induction chars generalizing literal position with
  | nil =>
    cases fed
    exact .nil _
  | cons c chars ih =>
    rcases feed_cons_enclosed_eq_ok fed with ⟨next, pushed, fed⟩ | ⟨lexeme, others, -, impossible⟩
    · exact .cons pushed (ih fed)
    · cases impossible

end Closed

/-- The delimiter of the texts in a written value. -/
def singleQuote : Delimiter :=
  ⟨'\'', '\'', some '\\', .quote⟩

theorem find?_singleQuote : standard.find? '\'' = some singleQuote := by
  decide

/-- A text as it stands between the quotes of a written value. -/
abbrev escaped (chars : List Char) : List Char :=
  Text.escape (· == '\'') chars

private theorem escaped_cons (c : Char) (rest : List Char) :
    escaped (c :: rest) = escaped [c] ++ escaped rest :=
  Text.escape_append _ [c] rest

theorem toList_quoted (text : String) :
    (Value.quoted text).toList = '\'' :: (escaped text.toList ++ ['\'']) := by
  rw [Value.quoted, Text.quote, String.toList_ofList, List.cons_append]

section Quote

variable {delimiters : Delimiters} (text : String) {c : Char}

theorem push_closing : (Enclosed.quote singleQuote text false).push delimiters '\'' =
    .ok (.closed (.token (.str text))) :=
  rfl

theorem push_plain (noEscape : c ≠ '\\') (noQuote : c ≠ '\'') :
    (Enclosed.quote singleQuote text false).push delimiters c =
      .ok (.more (.quote singleQuote (text.push c) false)) := by
  simp [Enclosed.push, Enclosed.pushQuoted, singleQuote, noEscape.symm, noQuote.symm]

/-- A backslash and a quote are kept without the backslash in front of them. -/
theorem grows_pair (special : c = '\\' ∨ c = '\'') :
    Grows (.quote singleQuote text false) ['\\', c] (.quote singleQuote (text.push c) false) := by
  have escapes : (Enclosed.quote singleQuote text false).push standard '\\' =
      .ok (.more (.quote singleQuote text true)) := rfl
  have kept : (Enclosed.quote singleQuote text true).push standard c =
      .ok (.more (.quote singleQuote (text.push c) false)) := by
    rcases special with rfl | rfl <;> rfl
  exact .cons escapes (.cons kept (.nil _))

/-- Any other character keeps the backslash in front of it. -/
theorem grows_kept (noEscape : c ≠ '\\') (noQuote : c ≠ '\'') :
    Grows (.quote singleQuote text false) ['\\', c]
      (.quote singleQuote ((text.push '\\').push c) false) := by
  have escapes : (Enclosed.quote singleQuote text false).push standard '\\' =
      .ok (.more (.quote singleQuote text true)) := rfl
  have kept : (Enclosed.quote singleQuote text true).push standard c =
      .ok (.more (.quote singleQuote ((text.push '\\').push c) false)) := by
    simp [Enclosed.push, Enclosed.pushQuoted, singleQuote, noEscape.symm, noQuote.symm]
  exact .cons escapes (.cons kept (.nil _))

/-- A character that is no backslash is read as it was written. -/
theorem grows_escaped (noEscape : c ≠ '\\') :
    Grows (.quote singleQuote text false) (escaped [c])
      (.quote singleQuote (text.push c) false) := by
  by_cases quote : c = '\''
  · subst quote
    exact grows_pair text (.inr rfl)
  · have single : escaped [c] = [c] := by simp [escaped, Text.escape, quote]
    rw [single]
    exact .cons (push_plain text noEscape quote) (.nil _)

end Quote

private theorem escaped_backslash_cons {c : Char} (noQuote : c ≠ '\'') (rest : List Char) :
    escaped ('\\' :: c :: rest) = ['\\', c] ++ escaped rest := by
  simp [escaped, Text.escape, noQuote]

/-- A text that keeps its backslashes is read as it was written. -/
theorem grows_of_keepsBackslashes {chars : List Char} (keeps : keepsBackslashes chars = true)
    (text : String) : Grows (.quote singleQuote text false) (escaped chars)
      (.quote singleQuote (text ++ String.ofList chars) false) := by
  fun_induction keepsBackslashes chars generalizing text with
  | case1 =>
    rw [String.ofList_nil, String.append_empty]
    exact .nil _
  | case2 c rest ih =>
    simp only [Bool.and_eq_true, bne_iff_ne] at keeps
    obtain ⟨⟨noEscape, noQuote⟩, keeps⟩ := keeps
    rw [escaped_backslash_cons noQuote, append_ofList_cons, append_ofList_cons]
    exact (grows_kept text noEscape noQuote).append (ih keeps _)
  | case3 c rest single ih =>
    simp only [Bool.and_eq_true, bne_iff_ne] at keeps
    obtain ⟨noEscape, keeps⟩ := keeps
    rw [escaped_cons, append_ofList_cons]
    exact (grows_escaped text noEscape).append (ih keeps _)

theorem spells_quoted {text : String} (keeps : keepsBackslashes text.toList = true) :
    Spells (Value.quoted text).toList [.str text] := by
  have closed (position : Nat) : feed standard position .nothing (Value.quoted text).toList =
      .ok ([.token (.str text)], .nothing) := by
    have grows := grows_of_keepsBackslashes keeps ""
    rw [String.empty_append, String.ofList_toList] at grows
    rw [toList_quoted, feed_cons_of_find? find?_singleQuote]
    exact (grows.feed_append _ _ _).trans (feed_last_of_push (push_closing text) _ _)
  exact spells_enclosed closed rfl

/-- A text in which no backslash stands in front of the first quote. -/
inductive OpensPlainly : List Char → Prop
  | nil : OpensPlainly []
  | quote (rest : List Char) : OpensPlainly ('\'' :: rest)
  | cons {c : Char} {rest : List Char} (noEscape : c ≠ '\\') (plain : OpensPlainly rest) :
    OpensPlainly (c :: rest)

theorem opensPlainly_append {front rest : List Char} (plain : '\\' ∉ front)
    (behind : OpensPlainly rest) : OpensPlainly (front ++ rest) := by
  induction front with
  | nil => exact behind
  | cons c front ih =>
    rw [List.mem_cons, not_or] at plain
    exact .cons (Ne.symm plain.1) (ih plain.2)

/-- A text that goes on up to the first quote has no backslash at its end. -/
theorem getLast?_of_opensPlainly {rest : List Char} (plain : OpensPlainly rest) {text : String}
    (ends : text.toList.getLast? ≠ some '\\') {lexeme : Lexeme}
    (closed : closed? (.quote singleQuote text false) rest = some lexeme) :
    ∃ answer, lexeme = .token (.str answer) ∧ answer.toList.getLast? ≠ some '\\' := by
  have here {rest : List Char} {text : String} (ends : text.toList.getLast? ≠ some '\\')
      (closed : closed? (.quote singleQuote text false) ('\'' :: rest) = some lexeme) :
      ∃ answer, lexeme = .token (.str answer) ∧ answer.toList.getLast? ≠ some '\\' := by
    rw [closed?_cons_of_closed (push_closing text)] at closed
    cases closed
    exact ⟨text, rfl, ends⟩
  induction plain generalizing text with
  | nil => cases closed
  | quote rest => exact here ends closed
  | @cons c rest noEscape plain ih =>
    by_cases quote : c = '\''
    · subst quote
      exact here ends closed
    · rw [closed?_cons_of_more (push_plain text noEscape quote)] at closed
      refine ih ?_ closed
      simpa [String.toList_push] using noEscape

/-- What is read of a written text, if all that has been read and the text have the given length:
a shorter text, the text itself because it keeps its backslashes, or one that goes on behind it. -/
inductive Reading (length : Nat) (chars : List Char) (answer : String) : Prop
  | shorter (less : answer.length < length)
  | whole (same : answer.length = length) (keeps : keepsBackslashes chars = true)
  | further (ends : chars.getLast? = some '\\') (others : answer.toList.getLast? ≠ some '\\')

private theorem Reading.append {chars : List Char} {length total : Nat} {answer : String}
    (reading : Reading length chars answer) (front : List Char) (bound : length ≤ total)
    (keeps : length = total → keepsBackslashes chars = true →
      keepsBackslashes (front ++ chars) = true) : Reading total (front ++ chars) answer := by
  cases reading with
  | shorter less => exact .shorter (Nat.lt_of_lt_of_le less bound)
  | whole same inside =>
    rcases Nat.lt_or_eq_of_le bound with more | equal
    · exact .shorter (same ▸ more)
    · exact .whole (same.trans equal) (keeps equal inside)
  | further ends others =>
    refine .further ?_ others
    rw [List.getLast?_append, ends, Option.some_or]

theorem reading_of_closed? {chars rest : List Char} (plain : OpensPlainly rest) {text : String}
    {lexeme : Lexeme} (closed : closed? (.quote singleQuote text false)
      (escaped chars ++ '\'' :: rest) = some lexeme) :
    ∃ answer, lexeme = .token (.str answer) ∧
      Reading (text.length + chars.length) chars answer := by
  fun_induction keepsBackslashes chars generalizing text with
  | case1 =>
    rw [escaped, Text.escape_nil, List.nil_append,
      closed?_cons_of_closed (push_closing text)] at closed
    cases closed
    exact ⟨text, rfl, .whole rfl rfl⟩
  | case2 c others ih =>
    rw [List.length_cons, List.length_cons]
    by_cases quote : c = '\''
    · -- The backslash of the quote is taken for the second one of a pair.
      subst quote
      change closed? _ (['\\', '\\'] ++ '\'' :: (escaped others ++ '\'' :: rest)) = _ at closed
      rw [(grows_pair text (.inl rfl)).closed?_append,
        closed?_cons_of_closed (push_closing _)] at closed
      cases closed
      refine ⟨_, rfl, .shorter ?_⟩
      rw [String.length_push]
      omega
    · rw [escaped_backslash_cons quote, List.append_assoc] at closed
      by_cases escape : c = '\\'
      · rw [(grows_pair text (.inl escape)).closed?_append] at closed
        obtain ⟨answer, same, reading⟩ := ih closed
        rw [String.length_push] at reading
        exact ⟨answer, same, reading.append ['\\', c] (by omega) (by omega)⟩
      · rw [(grows_kept text escape quote).closed?_append] at closed
        obtain ⟨answer, same, reading⟩ := ih closed
        rw [String.length_push, String.length_push] at reading
        refine ⟨answer, same, reading.append ['\\', c] (by omega) fun _ keeps => ?_⟩
        simp [keepsBackslashes, escape, quote, keeps]
  | case3 c others single ih =>
    rw [List.length_cons]
    by_cases escape : c = '\\'
    · -- The backslash is the last character, and the closing quote is read as a part of the text.
      subst escape
      cases others with
      | nil =>
        change closed? _ (['\\', '\''] ++ rest) = _ at closed
        rw [(grows_pair text (.inr rfl)).closed?_append] at closed
        obtain ⟨answer, same, ends⟩ := getLast?_of_opensPlainly plain (by simp) closed
        exact ⟨answer, same, .further rfl ends⟩
      | cons d others => exact (single d others rfl rfl).elim
    · rw [escaped_cons, List.append_assoc, (grows_escaped text escape).closed?_append] at closed
      obtain ⟨answer, same, reading⟩ := ih closed
      rw [String.length_push] at reading
      refine ⟨answer, same, reading.append [c] (by omega) fun _ keeps => ?_⟩
      simp [keepsBackslashes, escape, keeps]

/-- A text is read from between its quotes only if it keeps its backslashes. -/
theorem keepsBackslashes_of_closed? {text : String} {rest : List Char} (plain : OpensPlainly rest)
    (closed : closed? (.quote singleQuote "" false) (escaped text.toList ++ '\'' :: rest) =
      some (.token (.str text))) : keepsBackslashes text.toList = true := by
  obtain ⟨answer, same, reading⟩ := reading_of_closed? plain closed
  cases same
  rw [String.length_empty, Nat.zero_add, String.length_toList] at reading
  cases reading with
  | shorter less => exact (Nat.lt_irrefl _ less).elim
  | whole same keeps => exact keeps
  | further ends others => exact (others ends).elim

end Expression

end Stencil
