import Stencil.Proofs.OpenLiterals
import Stencil.Proofs.ReadTokens

/-! # Written expressions read back

An expression that was read from a text is written as a text that is read as the same expression,
as long as no floating point number occurs in it: `Expression.read_toText`. Each token is spelled
on its own, and a space separates two tokens. An open list or group keeps all characters of an
item or a body that can be read, because its commas and closing characters stand inside literals
of its own, `feed_inner`.
-/

namespace Stencil

theorem Decimal.toList_integerText {n : Int} (notNegative : 0 ≤ n) :
    (integerText n).toList = digits n.natAbs := by
  rw [integerText, if_neg (by omega), String.toList_ofList]

namespace Token

mutual

/-- Whether a token holds no floating point number at any depth. -/
def isFloatFree : Token → Bool
  | .identifier _ => true
  | .operator _ => true
  | .str _ => true
  | .int _ => true
  | .float _ => false
  | .list items => areFloatFreeItems items
  | .group tokens => areFloatFree tokens

/-- Whether tokens hold no floating point number. -/
def areFloatFree : List Token → Bool
  | [] => true
  | token :: rest => token.isFloatFree && areFloatFree rest

/-- Whether items hold no floating point number. -/
def areFloatFreeItems : List (List Token) → Bool
  | [] => true
  | item :: rest => areFloatFree item && areFloatFreeItems rest

end

end Token

namespace Expression

open Delimiters Lexeme

/-- Whether an expression holds no floating point number at any depth. -/
def isFloatFree (expression : Expression) : Bool :=
  Token.areFloatFree expression

section Spellings

/-- A text that is read as the given tokens wherever nothing is being read. -/
def Spells (text : List Char) (tokens : Expression) : Prop :=
  ∀ position, ∃ ended last later, feed standard position .nothing text = .ok (ended, last) ∧
    finish last = .ok later ∧ (ended ++ later).mapM (Lexeme.read (read standard)) = .ok tokens

private theorem spells_nil : Spells [] [] :=
  fun _ => ⟨[], .nothing, [], rfl, rfl, rfl⟩

theorem find?_standard_of_not_isPunctuation {c : Char} (ordinary : isPunctuation c = false) :
    standard.find? c = none := by
  rw [Option.eq_none_iff_forall_ne_some]
  intro delimiter found
  rw [isPunctuation_of_mem_marks c (mem_marks_of_find?_standard found).1] at ordinary
  cases ordinary

theorem find?_standard_of_isBlank {c : Char} (blank : Text.isBlank c = true) :
    standard.find? c = none :=
  find?_standard_of_not_isPunctuation (by simp [isPunctuation, blank])

theorem isBlank_space : Text.isBlank ' ' = true := by
  decide

/-- Two spellings side by side, the first character of the second one ending the first one. -/
theorem Spells.append {front rest : List Char} {tokens others : Expression}
    (spelled : Spells front tokens) (followed : Spells rest others)
    (ends : ∀ position ended last lexemes,
      feed standard position .nothing front = .ok (ended, last) → finish last = .ok lexemes →
      ∀ c, rest.head? = some c → last.EndsAt standard (position + front.length) c) :
    Spells (front ++ rest) (tokens ++ others) := by
  intro position
  obtain ⟨ended, last, lexemes, fed, finished, lexemesRead⟩ := spelled position
  obtain ⟨later, final, closing, restFed, restFinished, restRead⟩ :=
    followed (position + front.length)
  cases rest with
  | nil =>
    cases restFed
    cases restFinished
    obtain rfl : [] = others := Except.ok.inj restRead
    rw [List.append_nil, List.append_nil]
    exact ⟨ended, last, lexemes, fed, finished, lexemesRead⟩
  | cons c rest =>
    have endsHere := ends position ended last lexemes fed finished c rfl
    refine ⟨ended ++ (lexemes ++ later), final, closing, ?_, restFinished, ?_⟩
    · rw [feed_append, fed, Result.ok_bind, endsHere.feed_cons, finished, Result.ok_bind, restFed]
      rfl
    · rw [List.append_assoc, List.append_assoc, ← List.append_assoc, List.mapM_append,
        lexemesRead, restRead]
      rfl

theorem spells_space_cons {text : List Char} {tokens : Expression} (spelled : Spells text tokens) :
    Spells (' ' :: text) tokens := by
  intro position
  have passed : offer standard position ' ' .nothing = .ok ([], .nothing) :=
    offer_nothing (begin_blank isBlank_space (by decide) position)
  rw [feed_cons_of_offer passed]
  exact spelled (position + 1)

/-- A space separates two spellings. -/
theorem spells_append {front rest : List Char} {tokens others : Expression}
    (spelled : Spells front tokens) (followed : Spells rest others) :
    Spells (front ++ ' ' :: rest) (tokens ++ others) := by
  refine spelled.append (spells_space_cons followed) ?_
  rintro position ended last lexemes _ finished c ⟨⟩
  exact endsAt_blank isBlank_space (by decide) (isPlain_of_finish finished) _

/-- What is spelled is read. -/
theorem read_of_spells {text : String} {tokens : Expression}
    (spelled : Spells text.toList tokens) : read standard text = .ok tokens := by
  obtain ⟨ended, last, later, fed, finished, lexemesRead⟩ := spelled 0
  rw [read_eq, scan]
  rcases scanFrom_cases standard 0 .nothing text.toList with
    ⟨ended, last, again, same⟩ | ⟨_, failed, -⟩
  · rw [fed] at again
    cases again
    rw [same, finished, Scan.read, lexemesRead]
    rfl
  · rw [fed] at failed
    cases failed

/-- Tokens that have no inner texts. -/
theorem spells_of_finish {text : List Char} {token : Token}
    (spelled : ∀ position, ∃ last, feed standard position .nothing text = .ok ([], last) ∧
      finish last = .ok [.token token]) : Spells text [token] := by
  intro position
  obtain ⟨last, fed, finished⟩ := spelled position
  exact ⟨[], last, _, fed, finished, rfl⟩

theorem find?_standard_of_mem_symbol (operator : Operator) :
    ∀ c ∈ operator.symbol.toList, standard.find? c = none := by
  intro c member
  have checked := Operator.forall_symbol (p := fun c => (standard.find? c).isNone) (by decide)
  simpa using checked operator c member

theorem spells_operator (operator : Operator) :
    Spells operator.symbol.toList [.operator operator] := by
  have free := find?_standard_of_mem_symbol operator
  refine spells_of_finish fun position => ⟨_, feed_symbol operator free position, ?_⟩
  rw [finish, Operator.ofSymbol?_symbol]

theorem spells_identifier {path : Identifier} (readable : path.IsReadable) :
    Spells path.toText.toList [.identifier path] := by
  obtain ⟨names, noOperator⟩ := readable
  have free : ∀ name ∈ path.segments, ∀ c ∈ name.toList, standard.find? c = none := by
    intro name listed c member
    apply find?_standard_of_not_isPunctuation
    simp [isPunctuation, isNameChar_of_isName (names name listed) member]
  exact spells_of_finish fun position => feed_path (by decide) free names noOperator position

theorem not_isPunctuation_of_isDigit {c : Char} (digit : c.isDigit = true) :
    isPunctuation c = false := by
  simp [isPunctuation, isNameChar_of_isDigit digit]

theorem spells_int {n : Int64} (notNegative : 0 ≤ n.toInt) :
    Spells (Decimal.integerText n.toInt).toList [.int n] := by
  have free : ∀ c ∈ Decimal.digits n.toInt.natAbs, standard.find? c = none :=
    fun c member => find?_standard_of_not_isPunctuation
      (not_isPunctuation_of_isDigit (Decimal.isDigit_of_mem_digits _ c member))
  have upper : n.toInt < 2 ^ 63 := n.toInt_lt
  have same : (n.toInt.natAbs : Int) = n.toInt := by omega
  have fits : n.toInt.natAbs < Nat.pow 2 63 := by
    rw [Nat.pow_eq]
    omega
  have token : ofNumeral ⟨n.toInt.natAbs, none⟩ = .token (.int n) := by
    rw [ofNumeral, if_pos ⟨rfl, fits⟩, same, Int64.ofInt_toInt]
  rw [Decimal.toList_integerText notNegative]
  refine spells_of_finish fun position =>
    ⟨_, feed_numeral free (Decimal.Numeral.ofDigits?_digits _) position, ?_⟩
  rw [finish, token]

end Spellings

section Enclosed

/-- A literal that is closed at the end of a text. -/
theorem spells_enclosed {text : List Char} {lexeme : Lexeme} {token : Token}
    (closed : ∀ position, feed standard position .nothing text = .ok ([lexeme], .nothing))
    (lexemeRead : lexeme.read (read standard) = .ok token) : Spells text [token] := by
  intro position
  refine ⟨[lexeme], .nothing, [], closed position, rfl, ?_⟩
  rw [List.append_nil]
  exact Result.mapM_cons_eq_ok.mpr ⟨token, [], lexemeRead, rfl, rfl⟩

/-- The delimiter of written texts. -/
def doubleQuote : Delimiter :=
  ⟨'"', '"', some '\\', .quote⟩

theorem feed_cons_of_push {literal longer : Enclosed} {c : Char}
    (pushed : literal.push standard c = .ok (.more longer)) (position start : Nat)
    (rest : List Char) :
    feed standard position (.enclosed literal start) (c :: rest) =
      feed standard (position + 1) (.enclosed longer start) rest := by
  apply feed_cons_of_offer
  rw [offer_enclosed, pushed]

theorem feed_last_of_push {literal : Enclosed} {lexeme : Lexeme} {c : Char}
    (pushed : literal.push standard c = .ok (.closed lexeme)) (position start : Nat) :
    feed standard position (.enclosed literal start) [c] = .ok ([lexeme], .nothing) := by
  rw [feed_cons, offer_enclosed, pushed]
  rfl

/-- A character that opens a literal opens it where nothing is being read. -/
theorem feed_cons_of_find? {c : Char} {delimiter : Delimiter}
    (found : standard.find? c = some delimiter) (position : Nat) (rest : List Char) :
    feed standard position .nothing (c :: rest) =
      feed standard (position + 1) (.enclosed (.ofDelimiter delimiter) position) rest := by
  apply feed_cons_of_offer
  apply offer_nothing
  rw [begin, found]

private theorem feed_escape (text : String) (chars : List Char) (position start : Nat) :
    feed standard position (.enclosed (.quote doubleQuote text false) start)
        (Text.escape (fun c => c == '"' || c == '\\') chars ++ ['"']) =
      .ok ([.token (.str (text ++ String.ofList chars))], .nothing) := by
  induction chars generalizing text position with
  | nil =>
    rw [Text.escape_nil, List.nil_append, String.ofList_nil, String.append_empty]
    exact feed_last_of_push rfl position start
  | cons c others ih =>
    rw [Text.escape_cons, append_ofList_cons, List.append_assoc]
    split
    · next special =>
      have escapes : (Enclosed.quote doubleQuote text false).push standard '\\' =
          .ok (.more (.quote doubleQuote text true)) := rfl
      have kept : (Enclosed.quote doubleQuote text true).push standard c =
          .ok (.more (.quote doubleQuote (text.push c) false)) := by
        simp only [Bool.or_eq_true, beq_iff_eq] at special
        rcases special with rfl | rfl <;> rfl
      rw [List.cons_append, List.cons_append, List.nil_append, feed_cons_of_push escapes,
        feed_cons_of_push kept]
      exact ih (text.push c) (position + 1 + 1)
    · next plain =>
      have kept : (Enclosed.quote doubleQuote text false).push standard c =
          .ok (.more (.quote doubleQuote (text.push c) false)) := by
        simp only [Bool.or_eq_true, beq_iff_eq, not_or] at plain
        simp [Enclosed.push, Enclosed.pushQuoted, doubleQuote, Ne.symm plain.1, Ne.symm plain.2]
      rw [List.singleton_append, feed_cons_of_push kept]
      exact ih (text.push c) (position + 1)

private theorem spells_str (text : String) : Spells (Token.quoted text).toList [.str text] := by
  have closed (position : Nat) : feed standard position .nothing (Token.quoted text).toList =
      .ok ([.token (.str text)], .nothing) := by
    have opens : standard.find? '"' = some doubleQuote := by decide
    rw [Token.quoted, Text.quote, String.toList_ofList, List.cons_append, feed_cons_of_find? opens]
    have closing := feed_escape "" text.toList (position + 1) position
    rwa [String.empty_append, String.ofList_toList] at closing
  exact spells_enclosed closed rfl

end Enclosed

section Inner

/-- A text that can be read leaves a literal open in front of each of its commas and closing
characters. -/
private theorem leavesOpen_of_read_append {front : String} {c : Char} {rest : List Char}
    {expression : Expression} (punctuation : isPunctuation c = true)
    (free : standard.find? c = none)
    (answer : read standard (front ++ String.ofList (c :: rest)) = .ok expression) :
    standard.leavesOpen front = .ok true := by
  have whole := openings?_of_read answer
  rw [String.toList_append, String.toList_ofList, openings?_append] at whole
  obtain ⟨openings, reached, -⟩ := Option.bind_eq_some_iff.mp whole
  obtain ⟨ended, last, lexemes, fed, -, -, lexemesRead⟩ := exists_feed_of_read answer
  rw [String.toList_append, String.toList_ofList, feed_append] at fed
  obtain ⟨⟨frontEnded, middle⟩, frontFed, fed⟩ := Result.bind_eq_ok.mp fed
  obtain ⟨⟨later, behind⟩, restFed, same⟩ := Result.bind_eq_ok.mp fed
  cases same
  obtain ⟨⟨_, _⟩, offered, -⟩ := Result.bind_eq_ok.mp restFed
  have balanced : ∀ lexeme ∈ frontEnded, lexeme.IsBalanced := by
    intro lexeme member
    have listed : lexeme ∈ frontEnded ++ later ++ lexemes :=
      List.mem_append_left _ (List.mem_append_left _ member)
    obtain ⟨token, tokenRead⟩ := Result.exists_of_mapM_eq_ok lexemesRead listed
    exact isBalanced_of_read tokenRead
  have start : Pending.IsStandard .nothing := trivial
  have agreed := (feed_openings? start frontFed balanced).2
  rw [openings?_of_isPlain rfl, Option.bind_some, reached] at agreed
  cases plain : middle.isPlain with
  | true =>
    obtain ⟨delimiter, found, -⟩ := offer_of_isPunctuation punctuation plain offered
    rw [free] at found
    cases found
  | false =>
    cases middle with
    | nothing => cases plain
    | operator text start => cases plain
    | word text start => cases plain
    | number numeral => cases plain
    | enclosed literal start =>
      have nonempty := stack_of_enclosed agreed.symm
      refine (leavesOpen_eq_ok_iff standard).mpr ⟨openings, reached, ?_⟩
      simpa using nonempty

/-- The characters that end an item or a body. -/
def boundaries : List Char :=
  [',', ')', ']']

private theorem isForeign_of_mem_boundaries :
    ∀ c ∈ boundaries, isPunctuation c = true ∧ standard.find? c = none := by
  have checked : (boundaries.all fun c => isPunctuation c && (standard.find? c).isNone) = true := by
    decide
  simpa only [List.all_eq_true, Bool.and_eq_true, Option.isNone_iff_eq_none] using checked

private theorem feed_inner_append {enclose : String → Enclosed}
    (grows : ∀ front c, (c ∈ boundaries → standard.leavesOpen front = .ok true) →
      (enclose front).push standard c = .ok (.more (enclose (front.push c))))
    {front : String} {rest : List Char} {expression : Expression}
    (answer : read standard (front ++ String.ofList rest) = .ok expression)
    (position start : Nat) :
    feed standard position (.enclosed (enclose front) start) rest =
      .ok ([], .enclosed (enclose (front ++ String.ofList rest)) start) := by
  induction rest generalizing front position with
  | nil => rw [feed_nil, String.ofList_nil, String.append_empty]
  | cons c rest ih =>
    have pushed := grows front c fun boundary =>
      leavesOpen_of_read_append (isForeign_of_mem_boundaries c boundary).1
        (isForeign_of_mem_boundaries c boundary).2 answer
    rw [append_ofList_cons] at answer ⊢
    rw [feed_cons_of_push pushed]
    exact ih answer (position + 1)

/-- An inner text that can be read is kept as a whole by a literal that ends only at a boundary in
front of which nothing is open. -/
theorem feed_inner {enclose : String → Enclosed}
    (grows : ∀ front c, (c ∈ boundaries → standard.leavesOpen front = .ok true) →
      (enclose front).push standard c = .ok (.more (enclose (front.push c))))
    {text : String} {expression : Expression} (answer : read standard text = .ok expression)
    (position start : Nat) :
    feed standard position (.enclosed (enclose "") start) text.toList =
      .ok ([], .enclosed (enclose text) start) := by
  have whole : "" ++ String.ofList text.toList = text := by
    rw [String.empty_append, String.ofList_toList]
  have kept := feed_inner_append grows (whole.symm ▸ answer) position start
  rwa [whole] at kept

end Inner

section Groups

/-- The delimiter of groups. -/
def parenthesis : Delimiter :=
  ⟨'(', ')', none, .group⟩

theorem feed_parenthesis (position : Nat) (rest : List Char) :
    feed standard position .nothing ('(' :: rest) =
      feed standard (position + 1) (.enclosed (.group parenthesis "") position) rest := by
  have opens : standard.find? '(' = some parenthesis := by decide
  exact feed_cons_of_find? opens position rest

private theorem push_group (front : String) (c : Char)
    (inside : c ∈ boundaries → standard.leavesOpen front = .ok true) :
    (Enclosed.group parenthesis front).push standard c =
      .ok (.more (.group parenthesis (front.push c))) := by
  rw [Enclosed.push, Enclosed.pushGrouped]
  split
  · next closing =>
    rw [inside (by rw [← closing]; decide)]
    rfl
  · rfl

private theorem push_group_close {body : String} {tokens : Expression}
    (bodyRead : read standard body = .ok tokens) :
    (Enclosed.group parenthesis body).push standard ')' = .ok (.closed (.group body)) := by
  have closing : parenthesis.close = ')' := rfl
  rw [Enclosed.push, Enclosed.pushGrouped, if_pos closing, leavesOpen_of_read bodyRead]
  rfl

theorem spells_group {body : String} {tokens : Expression} (spelled : Spells body.toList tokens) :
    Spells ("(" ++ body ++ ")").toList [.group tokens] := by
  have bodyRead := read_of_spells spelled
  have closed (position : Nat) : feed standard position .nothing ("(" ++ body ++ ")").toList =
      .ok ([.group body], .nothing) := by
    have chars : ("(" ++ body ++ ")").toList = '(' :: (body.toList ++ [')']) := by simp
    rw [chars, feed_parenthesis, feed_append, feed_inner push_group bodyRead, Result.ok_bind,
      feed_last_of_push (push_group_close bodyRead)]
    rfl
  refine spells_enclosed closed ?_
  rw [Lexeme.read, bodyRead]
  rfl

end Groups

section Lists

/-- The delimiter of lists. -/
def bracket : Delimiter :=
  ⟨'[', ']', none, .list⟩

theorem feed_bracket (position : Nat) (rest : List Char) :
    feed standard position .nothing ('[' :: rest) =
      feed standard (position + 1) (.enclosed (.list bracket [] "") position) rest := by
  have opens : standard.find? '[' = some bracket := by decide
  exact feed_cons_of_find? opens position rest

theorem push_list (items : List String) (front : String) (c : Char)
    (inside : c ∈ boundaries → standard.leavesOpen front = .ok true) :
    (Enclosed.list bracket items front).push standard c =
      .ok (.more (.list bracket items (front.push c))) := by
  rw [Enclosed.push, Enclosed.pushListed]
  split
  · next boundary =>
    have isBoundary : c ∈ boundaries := by
      rcases boundary with rfl | closing
      · decide
      · rw [← closing]
        decide
    rw [inside isBoundary]
    rfl
  · rfl

/-- A text that can be read as the item of a list. -/
def IsItem (text : String) : Prop :=
  ∃ tokens, read standard text = .ok tokens ∧ tokens ≠ []

theorem spells_of_isBlankText {text : List Char} (blank : Text.isAllBlank text = true) :
    Spells text [] := by
  intro position
  refine ⟨[], .nothing, [], ?_, rfl, rfl⟩
  induction text generalizing position with
  | nil => rfl
  | cons c rest ih =>
    rw [Text.isAllBlank, List.all_cons, Bool.and_eq_true] at blank
    have free := find?_standard_of_isBlank blank.1
    rw [feed_cons_of_offer (offer_nothing (begin_blank blank.1 free position))]
    exact ih blank.2 (position + 1)

private theorem not_isBlankText_of_isItem {text : String} (item : IsItem text) :
    Enclosed.isBlankText text = false := by
  obtain ⟨tokens, answer, filled⟩ := item
  rw [Bool.eq_false_iff]
  intro blank
  rw [read_of_spells (spells_of_isBlankText blank)] at answer
  cases answer
  exact filled rfl

theorem push_list_comma {items : List String} {item : String} (isItem : IsItem item) :
    (Enclosed.list bracket items item).push standard ',' =
      .ok (.more (.list bracket (items ++ [item]) "")) := by
  have filled := not_isBlankText_of_isItem isItem
  obtain ⟨tokens, answer, -⟩ := isItem
  rw [Enclosed.push, Enclosed.pushListed, if_pos (.inl rfl), leavesOpen_of_read answer,
    Result.ok_bind, filled]
  rfl

private theorem push_list_close {items : List String} {item : String} (isItem : IsItem item) :
    (Enclosed.list bracket items item).push standard ']' =
      .ok (.closed (.list (items ++ [item]))) := by
  have filled := not_isBlankText_of_isItem isItem
  obtain ⟨tokens, answer, -⟩ := isItem
  rw [Enclosed.push, Enclosed.pushListed, if_pos (.inr rfl), leavesOpen_of_read answer,
    Result.ok_bind, filled]
  rfl

/-- Texts with a comma behind each of them. -/
def commaText (items : List String) : List Char :=
  items.flatMap fun item => item.toList ++ [',']

/-- In front of further items every item has a comma behind it. -/
theorem toList_intercalate_append (items : List String) {rest : List String}
    (filled : rest ≠ []) :
    (",".intercalate (items ++ rest)).toList =
      commaText items ++ (",".intercalate rest).toList := by
  induction items with
  | nil => rfl
  | cons item items ih =>
    have filledBehind : items ++ rest ≠ [] := fun none => filled (List.append_eq_nil_iff.mp none).2
    rw [List.cons_append, String.intercalate_cons_of_ne_nil filledBehind, String.toList_append, ih,
      commaText, commaText, List.flatMap_cons]
    simp

/-- Items in front of commas are cut out one after the other. -/
theorem feed_commaText (done : List String) {items : List String}
    (areItems : ∀ text ∈ items, IsItem text) (position start : Nat) :
    feed standard position (.enclosed (.list bracket done "") start) (commaText items) =
      .ok ([], .enclosed (.list bracket (done ++ items) "") start) := by
  induction items generalizing done position with
  | nil => rw [commaText, List.flatMap_nil, feed_nil, List.append_nil]
  | cons item items ih =>
    have isItem := areItems item List.mem_cons_self
    obtain ⟨tokens, answer, -⟩ := id isItem
    rw [commaText, List.flatMap_cons, List.append_assoc, List.singleton_append, ← commaText,
      feed_append, feed_inner (push_list done) answer, Result.ok_bind,
      feed_cons_of_push (push_list_comma isItem),
      ih (done ++ [item]) fun text member => areItems text (List.mem_cons_of_mem item member)]
    simp

/-- The last item is cut out by the closing character. -/
private theorem feed_items {items : List String} {last : String}
    (areItems : ∀ text ∈ items, IsItem text) (lastItem : IsItem last) (position start : Nat) :
    feed standard position (.enclosed (.list bracket [] "") start)
        ((",".intercalate (items ++ [last])).toList ++ [']']) =
      .ok ([.list (items ++ [last])], .nothing) := by
  obtain ⟨tokens, answer, -⟩ := id lastItem
  rw [toList_intercalate_append items (List.cons_ne_nil last []), String.intercalate_singleton,
    List.append_assoc, feed_append, feed_commaText [] areItems, Result.ok_bind, List.nil_append,
    feed_append, feed_inner (push_list items) answer, Result.ok_bind,
    feed_last_of_push (push_list_close lastItem)]
  rfl

/-- A separator of a comma and a space is a comma in front of a text that starts with a space. -/
private theorem intercalate_comma_space (text : String) (texts : List String) :
    ", ".intercalate (text :: texts) = ",".intercalate (text :: texts.map (" " ++ ·)) := by
  induction texts generalizing text with
  | nil => rw [List.map_nil, String.intercalate_singleton, String.intercalate_singleton]
  | cons next rest ih =>
    have separator : ", " = "," ++ " " := by decide
    rw [List.map_cons, String.intercalate_cons_cons, String.intercalate_cons_cons, ih,
      String.intercalate_cons_append, separator]
    simp only [String.append_assoc]

/-- Nothing need follow the last comma. -/
theorem push_list_closeBlank (items : List String) :
    (Enclosed.list bracket items "").push standard ']' = .ok (.closed (.list items)) := by
  have checked : standard.leavesOpen "" = .ok false :=
    leavesOpen_of_read (read_of_spells spells_nil)
  rw [Enclosed.push, Enclosed.pushListed, if_pos (.inr rfl), checked]
  rfl

private theorem feed_brackets {texts : List String} (areItems : ∀ text ∈ texts, IsItem text)
    (position : Nat) :
    feed standard position .nothing ("[" ++ ",".intercalate texts ++ "]").toList =
      .ok ([.list texts], .nothing) := by
  have chars : ("[" ++ ",".intercalate texts ++ "]").toList =
      '[' :: ((",".intercalate texts).toList ++ [']']) := by
    simp
  rw [chars, feed_bracket]
  rcases List.eq_nil_or_concat texts with rfl | ⟨items, last, rfl⟩
  · exact feed_last_of_push (push_list_closeBlank []) _ _
  · rw [List.concat_eq_append] at areItems ⊢
    exact feed_items (fun text member => areItems text (List.mem_append_left _ member))
      (areItems last (by simp)) _ _

/-- Items between brackets, separated by commas. -/
theorem spells_brackets {texts : List String} {items : List Expression}
    (areItems : ∀ text ∈ texts, IsItem text) (itemsRead : texts.mapM (read standard) = .ok items) :
    Spells ("[" ++ ",".intercalate texts ++ "]").toList [.list items] := by
  refine spells_enclosed (feed_brackets areItems) ?_
  rw [Lexeme.read, itemsRead]
  rfl

theorem spells_list {texts : List String} {items : List Expression}
    (spelled : ∀ text ∈ texts, ∃ tokens, tokens ≠ [] ∧ Spells text.toList tokens)
    (itemsRead : texts.mapM (read standard) = .ok items) :
    Spells ("[" ++ ", ".intercalate texts ++ "]").toList [.list items] := by
  cases texts with
  | nil =>
    have same : ", ".intercalate [] = ",".intercalate [] := by
      rw [String.intercalate_nil, String.intercalate_nil]
    rw [same]
    exact spells_brackets (List.forall_mem_nil _) itemsRead
  | cons text texts =>
    have spaced {other : String} {tokens : Expression} (spelled : Spells other.toList tokens) :
        read standard (" " ++ other) = .ok tokens := by
      apply read_of_spells
      rw [String.toList_append]
      exact spells_space_cons spelled
    have areItems : ∀ item ∈ text :: texts.map (" " ++ ·), IsItem item := by
      intro item member
      rcases List.mem_cons.mp member with rfl | member
      · obtain ⟨tokens, filled, itemSpelled⟩ := spelled item List.mem_cons_self
        exact ⟨tokens, read_of_spells itemSpelled, filled⟩
      · obtain ⟨other, listed, rfl⟩ := List.mem_map.mp member
        obtain ⟨tokens, filled, itemSpelled⟩ := spelled other (List.mem_cons_of_mem text listed)
        exact ⟨tokens, spaced itemSpelled, filled⟩
    have sameRead : (texts.map (" " ++ ·)).mapM (read standard) = texts.mapM (read standard) := by
      rw [List.mapM_map]
      apply Result.mapM_congr_of_mem
      intro other listed
      obtain ⟨tokens, -, itemSpelled⟩ := spelled other (List.mem_cons_of_mem text listed)
      rw [Function.comp_apply, spaced itemSpelled, read_of_spells itemSpelled]
    rw [intercalate_comma_space]
    refine spells_brackets areItems ?_
    rw [List.mapM_cons, sameRead, ← List.mapM_cons, itemsRead]

end Lists

section Expressions

mutual

/-- The text of a readable token spells that token. -/
theorem spells_toText : ∀ token : Token, token.IsReadable → token.isFloatFree = true →
    Spells token.toText.toList [token]
  | .identifier _, readable, _ => spells_identifier readable
  | .operator operator, _, _ => spells_operator operator
  | .str text, _, _ => spells_str text
  | .int _, readable, _ => spells_int readable
  | .float _, _, floatFree => absurd floatFree Bool.false_ne_true
  | .list items, readable, floatFree => by
    obtain ⟨spelled, itemsRead⟩ := spells_itemTexts items readable floatFree
    rw [Token.toText]
    exact spells_list spelled itemsRead
  | .group tokens, readable, floatFree => by
    rw [Token.toText]
    exact spells_group (spells_tokenTexts tokens readable floatFree)

/-- The texts of readable tokens spell those tokens with spaces between them. -/
theorem spells_tokenTexts : ∀ tokens : List Token, Token.AreReadable tokens →
    Token.areFloatFree tokens = true →
    Spells (" ".intercalate (Token.tokenTexts tokens)).toList tokens
  | [], _, _ => spells_nil
  | [single], readable, floatFree => by
    rw [Token.areFloatFree, Bool.and_eq_true] at floatFree
    rw [Token.tokenTexts, Token.tokenTexts, String.intercalate_singleton]
    exact spells_toText single readable.1 floatFree.1
  | head :: next :: rest, readable, floatFree => by
    rw [Token.areFloatFree, Bool.and_eq_true] at floatFree
    have first := spells_toText head readable.1 floatFree.1
    have others := spells_tokenTexts (next :: rest) readable.2 floatFree.2
    have spaced := spells_append first others
    rw [Token.tokenTexts] at others ⊢
    rw [Token.tokenTexts] at spaced ⊢
    rw [String.intercalate_cons_cons]
    simpa using spaced

/-- The texts of readable items spell those items. -/
theorem spells_itemTexts : ∀ items : List (List Token), Token.AreReadableItems items →
    Token.areFloatFreeItems items = true →
    (∀ text ∈ Token.itemTexts items, ∃ tokens, tokens ≠ [] ∧ Spells text.toList tokens) ∧
      (Token.itemTexts items).mapM (read standard) = .ok items
  | [], _, _ => ⟨by simp [Token.itemTexts], rfl⟩
  | item :: rest, readable, floatFree => by
    rw [Token.areFloatFreeItems, Bool.and_eq_true] at floatFree
    obtain ⟨⟨filled, itemReadable⟩, restReadable⟩ := readable
    have spelled := spells_tokenTexts item itemReadable floatFree.1
    obtain ⟨restSpelled, restRead⟩ := spells_itemTexts rest restReadable floatFree.2
    rw [Token.itemTexts]
    refine ⟨List.forall_mem_cons.mpr ⟨⟨item, filled, spelled⟩, restSpelled⟩, ?_⟩
    exact Result.mapM_cons_eq_ok.mpr ⟨item, rest, read_of_spells spelled, restRead, rfl⟩

end

/-- The text of an expression that was read, and in which no floating point number occurs, is read
as the same expression. -/
theorem read_toText {text : String} {expression : Expression}
    (answer : read standard text = .ok expression)
    (floatFree : expression.isFloatFree = true) :
    read standard expression.toText = .ok expression := by
  have readable := Token.areReadable_iff.mpr (read_isReadable answer)
  exact read_of_spells (spells_tokenTexts expression readable floatFree)

/-- A list that is written with other quotes than it was read with. -/
theorem read_toText_requoted :
    read standard "['\"',]" = .ok [.list [[.str "\""]]] ∧
      isFloatFree [.list [[.str "\""]]] = true ∧
      read standard (toText [.list [[.str "\""]]]) = .ok [.list [[.str "\""]]] := by
  have answer : read standard "['\"',]" = .ok [.list [[.str "\""]]] := rfl
  have floatFree : isFloatFree [.list [[.str "\""]]] = true := by decide
  exact ⟨answer, floatFree, read_toText answer floatFree⟩

end Expressions

end Expression

end Stencil
